import Rollout.Proofs.Config.Readers
/-!
Unknown keys in a configuration.  `Extends` says that a document is another one with entries inserted that have unknown
keys, anywhere in its root, in its services and in its structured dependencies.  In the first two nobody looks at their
values.  A dependency, though, is read as a whole before its form is known, with all values in it; so there an unknown
key is harmless if its value can be read (`Readable`), and one that cannot makes the configuration unreadable, but never
another one (`unknown_keys_ignored`).

A key is unknown if it is a string, but none of those that are known in its place; what is not a string in the place of
a key makes a document unreadable with or without it.  To insert entries is a relation between two lists (`Inserted`),
in which the elements of the first one may be changed as well, so that the same relation serves at each level of a
document.  A fold passes over the elements that are inserted if each of them leaves its state as it is
(`agrees_foldlM_inserted`).

What can be read is a matter of two things: how deep collections are nested, counted from the root of the document, and
whether an integer fits in 64 bits.  A value that fails in either of the two has no content, and
`unknown_key_unreadable` has one of each kind.
-/
namespace Rollout

open Yaml (Node Content ContentM)

/-! ## Insertions -/

/-- The second list is the first one with new elements inserted, and with its own changed where that is allowed. -/
inductive Inserted {α : Type} (New : α → Prop) (Kept : α → α → Prop) : List α → List α → Prop where
  | nil : Inserted New Kept [] []
  | keep {a a' : α} {l l' : List α} : Kept a a' → Inserted New Kept l l' → Inserted New Kept (a :: l) (a' :: l')
  | insert {a : α} {l l' : List α} : New a → Inserted New Kept l l' → Inserted New Kept l (a :: l')

theorem Inserted.refl {α : Type} {New : α → Prop} : ∀ l : List α, Inserted New Eq l l
  | [] => .nil
  | _ :: l => .keep rfl (refl l)

theorem Inserted.prepend {α : Type} {New : α → Prop} {Kept : α → α → Prop} {l l' : List α}
    (h : Inserted New Kept l l') : ∀ front : List α, (∀ a ∈ front, New a) → Inserted New Kept l (front ++ l')
  | [], _ => h
  | a :: front, hnew =>
    .insert (hnew a List.mem_cons_self) (h.prepend front fun b hb => hnew b (List.mem_cons_of_mem a hb))

namespace Yaml.ContentM

variable {α β γ : Type} {mayFail : Prop} {New : α → Prop} {Kept : α → α → Prop} {l l' : List α}

theorem agrees_foldlM_inserted {f : β → α → ContentM β} {P : β → Prop} (hP : ∀ b a, P b → Ensures (f b a) P)
    (hnew : ∀ b a, P b → New a → f b a = pure b) (hkept : ∀ b a a', Kept a a' → Agrees mayFail (f b a) (f b a'))
    (h : Inserted New Kept l l') : ∀ b, P b → Agrees mayFail (l.foldlM f b) (l'.foldlM f b) := by
  induction h with
  | nil => exact fun b _ => agrees_refl _
  | keep hhead _ ih =>
    intro b hb
    rw [List.foldlM_cons, List.foldlM_cons]
    exact (hkept b _ _ hhead).bind (hP b _ hb) ih
  | insert hhead _ ih =>
    intro b hb
    rw [List.foldlM_cons, hnew b _ hb hhead, pure_bind]
    exact ih b hb

theorem exists_mapM_eq_pure {f : α → ContentM β} : ∀ l : List α, (∀ a ∈ l, ∃ b, f a = pure b) →
    ∃ bs, l.mapM f = pure bs
  | [], _ => ⟨[], rfl⟩
  | a :: l, h => by
    obtain ⟨b, hb⟩ := h a List.mem_cons_self
    obtain ⟨bs, hbs⟩ := exists_mapM_eq_pure l fun a' ha' => h a' (List.mem_cons_of_mem a ha')
    exact ⟨b :: bs, by rw [List.mapM_cons, hb, hbs, pure_bind, pure_bind]⟩

theorem agrees_mapM_inserted {f : α → ContentM β} {New' : β → Prop}
    (hnew : ∀ a, New a → (∃ b, New' b ∧ f a = pure b) ∨ mayFail ∧ f a = failure) (h : Inserted New Eq l l') :
    ∀ g : List β → ContentM γ, (∀ bs bs', Inserted New' Eq bs bs' → g bs' = g bs) →
      Agrees mayFail (l.mapM f >>= g) (l'.mapM f >>= g) := by
  induction h with
  | nil => exact fun g _ => agrees_refl _
  | keep hhead _ ih =>
    intro g hg
    subst hhead
    simp only [List.mapM_cons, bind_assoc, pure_bind]
    exact Agrees.bind_right fun b => ih _ fun bs bs' hbs => hg _ _ (.keep rfl hbs)
  | @insert a l l' hhead _ ih =>
    intro g hg
    simp only [List.mapM_cons, bind_assoc, pure_bind]
    rcases hnew a hhead with ⟨b, hb, heq⟩ | ⟨hfail, heq⟩
    -- the result of a new element is passed over by `g`, so it may as well not be there
    · have hpassed : ∀ bs, g (b :: bs) = g bs := fun bs => hg _ _ (.insert hb (.refl bs))
      simp only [heq, pure_bind, hpassed]
      exact ih g hg
    · rw [heq, failure_bind]
      exact agrees_failure hfail _

end Yaml.ContentM

namespace Config

open Yaml.ContentM

/-! ## Documents with unknown keys -/

def rootKeys : List String := ["services"]

def serviceKeys : List String := ["process", "image", "environment", "depends_on", "profiles"]

def dependencyKeys : List String := ["service", "condition"]

def IsUnknown (keys : List String) (entry : Node × Node) : Prop :=
  ∃ isPlain text, entry.1 = .scalar none isPlain text ∧
    Content.ofScalar none isPlain text = some (.text text) ∧ text ∉ keys

/-- A dependency, with entries inserted if it is structured.  `Fits` says what their values may be. -/
inductive DependencyExtends (Fits : Node → Prop) : Node → Node → Prop where
  | same (node : Node) : DependencyExtends Fits node node
  | structured (tag : Option String) {entries entries' : List (Node × Node)} :
      Inserted (fun e => IsUnknown dependencyKeys e ∧ Fits e.2) Eq entries entries' →
      DependencyExtends Fits (.mapping tag entries) (.mapping tag entries')

inductive FieldExtends (Fits : Node → Prop) : Node × Node → Node × Node → Prop where
  | same (entry : Node × Node) : FieldExtends Fits entry entry
  | dependsOn (keyTag : Option String) (isPlain : Bool) (tag : Option String) {items items' : List Node} :
      List.Forall₂ (DependencyExtends Fits) items items' →
      FieldExtends Fits (.scalar keyTag isPlain "depends_on", .sequence tag items)
        (.scalar keyTag isPlain "depends_on", .sequence tag items')

inductive ServiceExtends (Fits : Node → Prop) : Node → Node → Prop where
  | same (node : Node) : ServiceExtends Fits node node
  | mapping (tag : Option String) {fields fields' : List (Node × Node)} :
      Inserted (IsUnknown serviceKeys) (FieldExtends Fits) fields fields' →
      ServiceExtends Fits (.mapping tag fields) (.mapping tag fields')

inductive RootFieldExtends (Fits : Node → Prop) : Node × Node → Node × Node → Prop where
  | same (entry : Node × Node) : RootFieldExtends Fits entry entry
  | services (keyTag : Option String) (isPlain : Bool) (tag : Option String) {entries entries' : List (Node × Node)} :
      List.Forall₂ (fun e e' => e'.1 = e.1 ∧ ServiceExtends Fits e.2 e'.2) entries entries' →
      RootFieldExtends Fits (.scalar keyTag isPlain "services", .mapping tag entries)
        (.scalar keyTag isPlain "services", .mapping tag entries')

/-- A configuration with entries inserted in its root, in services and in structured dependencies, with unknown keys. -/
inductive Extends (Fits : Node → Prop) : Node → Node → Prop where
  | same (node : Node) : Extends Fits node node
  | mapping (tag : Option String) {entries entries' : List (Node × Node)} :
      Inserted (IsUnknown rootKeys) (RootFieldExtends Fits) entries entries' →
      Extends Fits (.mapping tag entries) (.mapping tag entries')

/-! ## Values in structured dependencies -/

def depthOfValues : Nat := nesting - nestingOfDependencies - 1

/-- A tree that can be read as it is with collections nested that deep: its integers fit in 64 bits, unless they are
too large to be taken for integers at all. -/
inductive Readable : Nat → Node → Prop where
  | scalar {depth : Nat} {isPlain : Bool} {text : String} :
      (isPlain = true → Yaml.integer? text.toList ≠ some .tooLarge) → Readable depth (.scalar none isPlain text)
  | sequence {depth : Nat} {items : List Node} : (∀ item ∈ items, Readable depth item) →
      Readable (depth + 1) (.sequence none items)
  | mapping {depth : Nat} {entries : List (Node × Node)} : (∀ e ∈ entries, Readable depth e.1) →
      (∀ e ∈ entries, Readable depth e.2) → Readable (depth + 1) (.mapping none entries)

theorem exists_ofScalar {isPlain : Bool} {text : String}
    (h : isPlain = true → Yaml.integer? text.toList ≠ some .tooLarge) :
    ∃ c, Content.ofScalar none isPlain text = some c := by
  cases isPlain with
  | false => exact ⟨.text text, rfl⟩
  | true =>
    show ∃ c, Content.ofPlain text = some c
    unfold Content.ofPlain
    dsimp only
    split
    · exact ⟨_, rfl⟩
    · split
      · exact ⟨_, rfl⟩
      · split
        · rename_i n hinteger
          cases n with
          | tooLarge => exact absurd hinteger (h rfl)
          | _ => exact ⟨_, rfl⟩
        · exact ⟨_, rfl⟩

/-- **What is readable has a content**, whatever stands around it. -/
theorem Readable.exists_content {depth : Nat} {node : Node} (h : Readable depth node) :
    ∃ c, content depth node = pure c := by
  induction h with
  | scalar hscalar =>
    obtain ⟨c, hc⟩ := exists_ofScalar hscalar
    exact ⟨c, by rw [content_scalar, hc]; rfl⟩
  | @sequence depth items _ ih =>
    obtain ⟨cs, hcs⟩ := exists_mapM_eq_pure items ih
    refine ⟨.sequence, ?_⟩
    rw [content_sequence, hcs, pure_bind]
    rfl
  | @mapping depth entries _ _ ihkeys ihvalues =>
    have hentries : ∀ e ∈ entries, ∃ c : Content × Content,
        (do return (← content depth e.1, ← content depth e.2)) = (pure c : ContentM _) := fun e he => by
      obtain ⟨key, hkey⟩ := ihkeys e he
      obtain ⟨value, hvalue⟩ := ihvalues e he
      exact ⟨(key, value), by rw [hkey, hvalue, pure_bind, pure_bind]⟩
    obtain ⟨cs, hcs⟩ := exists_mapM_eq_pure entries hentries
    refine ⟨.mapping cs, ?_⟩
    rw [content_mapping, hcs, pure_bind]
    rfl

variable {mayFail : Prop} {Fits : Node → Prop}

/-! ## Dependencies -/

theorem structured?_other {key value : Content} {rest : List (Content × Content)} {service : Option String}
    {condition : Option Condition} (h : dependencyKey? key = some .other) :
    structured? service condition ((key, value) :: rest) = structured? service condition rest := by
  conv_lhs => unfold structured?
  rw [h]
  rfl

theorem structured?_inserted {entries entries' : List (Content × Content)}
    (h : Inserted (fun e : Content × Content => ∃ key, e.1 = .text key ∧ key ∉ dependencyKeys) Eq entries entries') :
    ∀ service condition, structured? service condition entries' = structured? service condition entries := by
  induction h with
  | nil => exact fun _ _ => rfl
  | @keep e e' l l' hhead _ ih =>
    subst hhead
    intro service condition
    obtain ⟨key, value⟩ := e
    unfold structured?
    simp only [ih]
  | @insert e l l' hhead _ ih =>
    intro service condition
    obtain ⟨key, value⟩ := e
    obtain ⟨text, rfl, hother⟩ := hhead
    have hkey : dependencyKey? (.text text) = some .other := by
      unfold dependencyKey?
      split <;> simp_all [dependencyKeys]
    rw [structured?_other hkey]
    exact ih service condition

def Contained (mayFail : Prop) (value : Node) : Prop :=
  (∃ c, content depthOfValues value = pure c) ∨ mayFail ∧ content depthOfValues value = failure

theorem content_unknown {entry : Node × Node} {keys : List String} (h : IsUnknown keys entry) (depth : Nat) :
    ∃ text, content depth entry.1 = pure (.text text) ∧ text ∉ keys := by
  obtain ⟨isPlain, text, hkey, htext, hother⟩ := h
  refine ⟨text, ?_, hother⟩
  rw [hkey, content_scalar, htext]
  rfl

/-- **An unknown key does not change a dependency**, neither its form nor what it says. -/
theorem agrees_readDependency (hfits : ∀ value, Fits value → Contained mayFail value) {node node' : Node}
    (h : DependencyExtends Fits node node') : Agrees mayFail (readDependency node) (readDependency node') := by
  cases h with
  | same => exact agrees_refl _
  | @structured tag entries entries' h =>
    have hnew : ∀ e : Node × Node, IsUnknown dependencyKeys e ∧ Fits e.2 →
        (∃ c : Content × Content, (∃ key, c.1 = .text key ∧ key ∉ dependencyKeys) ∧
          (do return (← content depthOfValues e.1, ← content depthOfValues e.2)) = (pure c : ContentM _)) ∨
        mayFail ∧ (do return (← content depthOfValues e.1, ← content depthOfValues e.2)) =
          (failure : ContentM (Content × Content)) := by
      rintro e ⟨hunknown, hvalue⟩
      obtain ⟨text, htext, hother⟩ := content_unknown hunknown depthOfValues
      rw [htext, pure_bind]
      refine (hfits e.2 hvalue).imp ?_ (And.imp_right fun hfail => ?_)
      · rintro ⟨c, hc⟩
        exact ⟨(.text text, c), ⟨text, rfl, hother⟩, by rw [hc, pure_bind]⟩
      · rw [hfail, failure_bind]
    -- the entry itself takes up one of the collections that may be nested
    have hdepth : nesting - nestingOfDependencies = depthOfValues + 1 := rfl
    unfold readDependency
    rw [hdepth, content_mapping, content_mapping]
    split
    · exact agrees_refl _
    · rw [bind_assoc, bind_assoc]
      refine agrees_mapM_inserted hnew h _ fun contents contents' hcontents => ?_
      simp only [pure_bind, dependency?, structured?_inserted hcontents]

/-! ## Services -/

theorem readField_dependsOn (d : Draft) (keyTag : Option String) (isPlain : Bool) (value : Node) :
    readField d (.scalar keyTag isPlain "depends_on", value) =
      if "depends_on" ∈ d.keys then failure
      else (do (← readItems value).mapM readDependency) >>= fun dependencies =>
        pure ⟨{ d.service with dependsOn := dependencies }, "depends_on" :: d.keys⟩ := by
  have hkey : readText (.scalar keyTag isPlain "depends_on") = pure "depends_on" := rfl
  unfold readField
  rw [hkey, pure_bind, bind_assoc]
  by_cases hmet : "depends_on" ∈ d.keys
  · rw [if_pos hmet, if_pos hmet]
    rfl
  · rw [if_neg hmet, if_neg hmet]
    rfl

theorem agrees_readField (hfits : ∀ value, Fits value → Contained mayFail value) {entry entry' : Node × Node}
    (h : FieldExtends Fits entry entry') (d : Draft) : Agrees mayFail (readField d entry) (readField d entry') := by
  cases h with
  | same => exact agrees_refl _
  | @dependsOn keyTag isPlain tag items items' hitems =>
    have hread : Agrees mayFail (items.mapM readDependency) (items'.mapM readDependency) :=
      agrees_mapM (hitems.imp fun _ _ => agrees_readDependency hfits)
    rw [readField_dependsOn, readField_dependsOn]
    split
    · exact agrees_refl _
    · exact Agrees.bind_left hread _

theorem readField_unknown {d : Draft} {entry : Node × Node} (hd : d.keys ⊆ serviceKeys)
    (h : IsUnknown serviceKeys entry) : readField d entry = pure d := by
  obtain ⟨isPlain, text, hkey, -, hother⟩ := h
  have htext : readText entry.1 = pure text := by rw [hkey]; rfl
  have hnew : text ∉ d.keys := fun hmet => hother (hd hmet)
  unfold readField
  rw [htext, pure_bind, if_neg hnew]
  dsimp only
  split
  · exact absurd (by decide) hother
  · exact absurd (by decide) hother
  · exact absurd (by decide) hother
  · exact absurd (by decide) hother
  · exact absurd (by decide) hother
  · rfl

theorem ensures_readField {d : Draft} (entry : Node × Node) (hd : d.keys ⊆ serviceKeys) :
    Ensures (readField d entry) fun d' => d'.keys ⊆ serviceKeys := by
  unfold readField
  refine ensures_bind _ fun key => ?_
  dsimp only
  split
  · exact ensures_failure
  · split
    · exact ensures_bind _ fun _ => ensures_pure (List.cons_subset.2 ⟨by decide, hd⟩)
    · exact ensures_bind _ fun _ => ensures_pure (List.cons_subset.2 ⟨by decide, hd⟩)
    · exact ensures_bind _ fun _ => ensures_pure (List.cons_subset.2 ⟨by decide, hd⟩)
    · exact ensures_bind _ fun _ => ensures_bind _ fun _ => ensures_pure (List.cons_subset.2 ⟨by decide, hd⟩)
    · exact ensures_bind _ fun _ => ensures_bind _ fun _ => ensures_pure (List.cons_subset.2 ⟨by decide, hd⟩)
    · exact ensures_pure hd

theorem agrees_readService (hfits : ∀ value, Fits value → Contained mayFail value) {node node' : Node}
    (h : ServiceExtends Fits node node') : Agrees mayFail (readService node) (readService node') := by
  cases h with
  | same => exact agrees_refl _
  | @mapping tag fields fields' h =>
    have hfields := agrees_foldlM_inserted (fun _ e hd => ensures_readField e hd) (fun _ _ => readField_unknown)
      (fun d _ _ hkept => agrees_readField hfits hkept d) h ⟨Service.blank, []⟩ (List.nil_subset _)
    unfold readService
    rw [readEntries_mapping, readEntries_mapping, pure_bind, pure_bind]
    exact hfields.bind_left _

/-! ## Configurations -/

theorem agrees_readTable {α : Type} {value : Node → ContentM α} {tag : Option String}
    {entries entries' : List (Node × Node)}
    (h : List.Forall₂ (fun e e' => e'.1 = e.1 ∧ Agrees mayFail (value e.2) (value e'.2)) entries entries') :
    Agrees mayFail (readTable value (.mapping tag entries)) (readTable value (.mapping tag entries')) := by
  unfold readTable
  rw [readEntries_mapping, readEntries_mapping, pure_bind, pure_bind]
  refine Agrees.bind_left (agrees_mapM (h.imp ?_)) _
  rintro e e' ⟨hkey, hvalue⟩
  rw [hkey]
  exact Agrees.bind_right fun _ => hvalue.bind_left _

theorem agrees_readRootField (hfits : ∀ value, Fits value → Contained mayFail value) {entry entry' : Node × Node}
    (h : RootFieldExtends Fits entry entry') (services : Option (Table Service)) :
    Agrees mayFail (readRootField services entry) (readRootField services entry') := by
  cases h with
  | same => exact agrees_refl _
  | @services keyTag isPlain tag entries entries' h =>
    have hread : Agrees mayFail (readTable readService (.mapping tag entries))
        (readTable readService (.mapping tag entries')) :=
      agrees_readTable (h.imp fun _ _ he => ⟨he.1, agrees_readService hfits he.2⟩)
    have hkey : readText (.scalar keyTag isPlain "services") = pure "services" := rfl
    unfold readRootField
    rw [hkey, pure_bind, pure_bind]
    split
    · split
      · exact agrees_refl _
      · exact hread.bind_left _
    · exact agrees_refl _

theorem readRootField_unknown (services : Option (Table Service)) {entry : Node × Node}
    (h : IsUnknown rootKeys entry) : readRootField services entry = pure services := by
  obtain ⟨isPlain, text, hkey, -, hother⟩ := h
  have htext : readText entry.1 = pure text := by rw [hkey]; rfl
  unfold readRootField
  rw [htext, pure_bind]
  split
  · exact absurd (by decide) hother
  · rfl

/-- **Unknown keys do not change what is read**, and where all that is inserted can be read they do not make it
unreadable. -/
theorem agrees_readRoot (hfits : ∀ value, Fits value → Contained mayFail value) {root root' : Node}
    (h : Extends Fits root root') : Agrees mayFail (readRoot root) (readRoot root') := by
  cases h with
  | same => exact agrees_refl _
  | @mapping tag entries entries' h =>
    have hentries := agrees_foldlM_inserted (P := fun _ => True)
      (fun services e _ => ensures_true (readRootField services e))
      (fun services _ _ hnew => readRootField_unknown services hnew)
      (fun services _ _ hkept => agrees_readRootField hfits hkept services) h none trivial
    unfold readRoot
    rw [readEntries_mapping, readEntries_mapping, pure_bind, pure_bind]
    exact hentries.bind_left _

theorem contained_of_readable {value : Node} (h : Readable depthOfValues value) : Contained False value :=
  Or.inl h.exists_content

theorem contained_of_unaliased {value : Node} (h : value.Unaliased) : Contained True value := by
  obtain ⟨o, ho⟩ := settled_content h depthOfValues
  cases o with
  | none => exact Or.inr ⟨trivial, ho⟩
  | some c => exact Or.inl ⟨c, ho⟩

/-- **Unknown keys are ignored.**  With values that can be read where they stand in structured dependencies, a
configuration with unknown keys inserted is read as the configuration without them, or is as unreadable.  With others it
may become unreadable, but it is never read as another configuration. -/
theorem unknown_keys_ignored {root : Node} (hroot : root.Unaliased) (root' : Node)
    (anchors anchors' : List (Nat × Node)) (size size' : Nat) :
    (Extends (Readable depthOfValues) root root' →
      ofDocument? ⟨root', anchors', size'⟩ = ofDocument? ⟨root, anchors, size⟩) ∧
    (Extends Node.Unaliased root root' →
      ofDocument? ⟨root', anchors', size'⟩ = ofDocument? ⟨root, anchors, size⟩ ∨
        ofDocument? ⟨root', anchors', size'⟩ = none) := by
  -- `root` is read alike in both documents, and `root'` agrees with it in its own
  have hbase : run ⟨root', anchors', size'⟩ (readRoot root) = ofDocument? ⟨root, anchors, size⟩ :=
    (settled_readRoot hroot).run_eq _ _
  refine ⟨fun h => ?_, fun h => ?_⟩
  · have hagrees := agrees_readRoot (fun _ => contained_of_readable) h
    rw [← hbase]
    exact (hagrees.run _).resolve_right And.left
  · have hagrees := agrees_readRoot (fun _ => contained_of_unaliased) h
    rw [← hbase]
    exact (hagrees.run _).imp_right And.right

def dependent (inRoot inService inDependency : List (Node × Node)) : Node :=
  .mapping none (inRoot ++ [field "services" (.mapping none [field "api" (.mapping none (inService ++
    [field "depends_on" (.sequence none [.mapping none (inDependency ++ [field "service" (textNode "db")])])]))])])

theorem isUnknown_field {keys : List String} {key : String} (h : key ∉ keys) (value : Node) :
    IsUnknown keys (field key value) := ⟨false, key, rfl, rfl, h⟩

theorem extends_dependent {inRoot inService inDependency : List (Node × Node)}
    (hroot : ∀ e ∈ inRoot, IsUnknown rootKeys e) (hservice : ∀ e ∈ inService, IsUnknown serviceKeys e)
    (hdependency : ∀ e ∈ inDependency, IsUnknown dependencyKeys e ∧ Fits e.2) :
    Extends Fits (dependent [] [] []) (dependent inRoot inService inDependency) := by
  refine .mapping none ((Inserted.nil.keep (.services none false none ?_)).prepend inRoot hroot)
  refine .cons ⟨rfl, .mapping none ?_⟩ .nil
  refine (Inserted.nil.keep (.dependsOn none false none ?_)).prepend inService hservice
  exact .cons (.structured none ((Inserted.refl _).prepend inDependency hdependency)) .nil

theorem unaliased_field {key : String} {value : Node} (h : value.Unaliased) :
    (Node.mapping none [field key value]).Unaliased :=
  .mapping (List.forall_mem_singleton.2 (.scalar _ _ _)) (List.forall_mem_singleton.2 h)

theorem unaliased_dependent : (dependent [] [] []).Unaliased :=
  unaliased_field (unaliased_field (unaliased_field
    (.sequence (List.forall_mem_singleton.2 (unaliased_field (.scalar _ _ _))))))

theorem unknown_keys_ignored_dependent :
    let team := field "team" (.mapping none [])
    let port := field "port" (.scalar none true "80")
    let note := field "note" (.sequence none [.scalar none true "80"])
    ofDocument? ⟨dependent [team] [port] [note], [], 0⟩ = ofDocument? ⟨dependent [] [] [], [], 0⟩ ∧
      (ofDocument? ⟨dependent [] [] [], [], 0⟩).isSome := by
  intro team port note
  have hinteger : Yaml.integer? "80".toList = some (.unsigned 80) := rfl
  have hnote : Readable depthOfValues note.2 :=
    .sequence (List.forall_mem_singleton.2 (.scalar fun _ => by rw [hinteger]; nofun))
  refine ⟨(unknown_keys_ignored unaliased_dependent _ [] [] 0 0).1 (extends_dependent ?_ ?_ ?_), by decide +kernel⟩
  · exact List.forall_mem_singleton.2 (isUnknown_field (by decide) _)
  · exact List.forall_mem_singleton.2 (isUnknown_field (by decide) _)
  · exact List.forall_mem_singleton.2 ⟨isUnknown_field (by decide) _, hnote⟩

def nested : Nat → Node
  | 0 => textNode ""
  | n + 1 => .sequence none [nested n]

theorem unaliased_nested : ∀ n, (nested n).Unaliased
  | 0 => .scalar _ _ _
  | n + 1 => .sequence (List.forall_mem_singleton.2 (unaliased_nested n))

def Spoils (value : Node) : Prop :=
  Extends Node.Unaliased (dependent [] [] []) (dependent [] [] [field "note" value]) ∧
    ofDocument? ⟨dependent [] [] [], [], 0⟩ =
      some ⟨Table.ofList [("api", { Service.blank with dependsOn := [.structured "db" .started] })]⟩ ∧
    ofDocument? ⟨dependent [] [] [field "note" value], [], 0⟩ = none

theorem spoils_of_unreadable {value : Node} (h : value.Unaliased)
    (hnone : ofDocument? ⟨dependent [] [] [field "note" value], [], 0⟩ = none) : Spoils value := by
  have hnote : ∀ e ∈ [field "note" value], IsUnknown dependencyKeys e ∧ e.2.Unaliased :=
    List.forall_mem_singleton.2 ⟨isUnknown_field (by decide) _, h⟩
  exact ⟨extends_dependent nofun nofun hnote, by decide +kernel, hnone⟩

/-- The value of an unknown key can make a configuration unreadable: an integer of more than 64 bits does, and a list
with more lists inside than may be nested. -/
theorem unknown_key_unreadable : Spoils (.scalar none true "18446744073709551616") ∧ Spoils (nested 130) :=
  ⟨spoils_of_unreadable (.scalar _ _ _) (by decide +kernel),
    spoils_of_unreadable (unaliased_nested 130) (by decide +kernel)⟩

end Config

end Rollout
