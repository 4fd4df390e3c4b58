import Rollout.Proofs.Config.Readers
/-!
A configuration comes back from its document.  A table may be written with its bindings in any order
(`Config.WrittenAs`); the order is lost on reading, and nothing else is.  Each reader takes what the writer of the same
part has written back to that part, and does nothing besides, whatever the document's anchors are: so every lemma here
says that reading something is `pure`.  A field that is left out is one that a blank service has already, so the fields
of a service are read one by one on top of a blank one (`Fills`).

The lemmas follow the document from its leaves to its root: texts, dependencies, tables, the fields of a service,
services, and the configuration.  A plain dependency stays plain, and a structured one whose condition is left out stays
structured.  A table is read binding by binding, and bindings with different names may be read in any order; that is the
only place where the order of writing comes up.
-/
namespace Rollout

open Yaml (Node Content ContentM)

/-! ## What is written -/

def Table.WrittenAs (isValue : α → Node → Prop) (t : Table α) (node : Node) : Prop :=
  ∃ entries fields, entries.Perm t.entries ∧
    List.Forall₂ (fun e f => ∃ value, f = Config.field e.1 value ∧ isValue e.2 value) entries fields ∧
    node = .mapping none fields

def Service.WrittenAs (s : Service) (node : Node) : Prop :=
  ∃ environment, s.environment.WrittenAs (fun text node => node = Config.textNode text) environment ∧
    node = .mapping none (Config.serviceFields s environment)

/-- The document of a configuration, with its services and their environments in any order. -/
def Config.WrittenAs (c : Config) (node : Node) : Prop :=
  ∃ services, c.services.WrittenAs Service.WrittenAs services ∧ node = .mapping none [field "services" services]

namespace Config

variable {α β : Type} {s : Service} {node : Node}

theorem writtenAs_tableNode {isValue : α → Node → Prop} {value : α → Node} (h : ∀ a, isValue a (value a))
    (t : Table α) : t.WrittenAs isValue (tableNode value t) := by
  refine ⟨t.entries, _, List.Perm.refl _, ?_, rfl⟩
  rw [List.forall₂_map_right_iff]
  exact List.forall₂_same.2 fun e _ => ⟨value e.2, rfl, h e.2⟩

theorem writtenAs_serviceNode (s : Service) : s.WrittenAs (serviceNode s) := by
  refine ⟨_, writtenAs_tableNode ?_ s.environment, rfl⟩
  exact fun _ => rfl

theorem writtenAs_toNode (c : Config) : c.WrittenAs c.toNode :=
  ⟨_, writtenAs_tableNode writtenAs_serviceNode c.services, rfl⟩

/-! ## Texts and lists -/

theorem readText_textNode (text : String) : readText (textNode text) = pure text := rfl

theorem readOptionalText_textNode (text : String) : readOptionalText (textNode text) = pure (some text) := rfl

theorem readItems_sequence (items : List Node) : readItems (.sequence none items) = pure items := rfl

theorem mapM_of_forall₂ {f : β → ContentM α} {values : List α} {nodes : List β}
    (h : List.Forall₂ (fun a node => f node = pure a) values nodes) : nodes.mapM f = pure values := by
  induction h with
  | nil => exact List.mapM_nil
  | cons hhead _ ih => rw [List.mapM_cons, hhead, pure_bind, ih, pure_bind]

theorem mapM_map {read : Node → ContentM α} {write : α → Node} (h : ∀ a, read (write a) = pure a) (values : List α) :
    (values.map write).mapM read = pure values :=
  mapM_of_forall₂ (List.forall₂_map_right_iff.2 (List.forall₂_same.2 fun a _ => h a))

/-! ## Tables -/

/-- **A table comes back**, whatever the order of its bindings was. -/
theorem readTable_of_writtenAs {isValue : α → Node → Prop} {value : Node → ContentM α}
    (hvalue : ∀ a node, isValue a node → value node = pure a) {t : Table α} (h : t.WrittenAs isValue node) :
    readTable value node = pure t := by
  obtain ⟨entries, fields, hperm, hfields, rfl⟩ := h
  have hbindings : fields.mapM (fun e => do return (← readText e.1, ← value e.2)) = (pure entries : ContentM _) := by
    refine mapM_of_forall₂ (hfields.imp ?_)
    rintro ⟨name, a⟩ _ ⟨node, rfl, hnode⟩
    show (do return (← readText (textNode name), ← value node)) = _
    rw [readText_textNode, hvalue a node hnode, pure_bind, pure_bind]
  unfold readTable
  rw [readEntries_mapping, pure_bind, hbindings, pure_bind, Table.ofList_of_perm hperm]

/-! ## Dependencies -/

theorem content_textNode (depth : Nat) (text : String) :
    ContentM.content depth (textNode text) = pure (.text text) :=
  ContentM.content_scalar depth none false text

theorem content_texts (depth : Nat) (fields : List (String × String)) :
    ContentM.content (depth + 1) (.mapping none (fields.map fun f => field f.1 (textNode f.2))) =
      pure (.mapping (fields.map fun f => (.text f.1, .text f.2))) := by
  rw [ContentM.content_mapping, if_neg (show ¬ Content.isLocalTag none = true from nofun)]
  have hfields : (fields.map fun f => field f.1 (textNode f.2)).mapM (fun e => do
      return (← ContentM.content depth e.1, ← ContentM.content depth e.2)) =
        pure (fields.map fun f => (Content.text f.1, Content.text f.2)) := by
    refine mapM_of_forall₂ (List.forall₂_map_left_iff.2 (List.forall₂_map_right_iff.2 (List.forall₂_same.2 ?_)))
    rintro ⟨key, text⟩ -
    show (do return (← ContentM.content depth (textNode key), ← ContentM.content depth (textNode text))) = _
    rw [content_textNode, content_textNode, pure_bind, pure_bind]
  rw [hfields, pure_bind]

theorem readDependency_of_content {d : Dependency} {c : Content}
    (hcontent : ContentM.content (nesting - nestingOfDependencies) node = pure c) (hd : dependency? c = some d) :
    readDependency node = pure d := by
  unfold readDependency
  rw [hcontent, pure_bind, hd]

/-- **A dependency comes back**: a plain one stays plain, and a structured one whose condition is left out stays
structured. -/
theorem readDependency_dependencyNode (d : Dependency) : readDependency (dependencyNode d) = pure d := by
  -- a dependency is one collection deep at most, and 124 may be nested there
  cases d with
  | plain service => exact readDependency_of_content (content_textNode _ service) rfl
  | structured service condition =>
    by_cases hdefault : condition = .started
    · rw [hdefault]
      exact readDependency_of_content (content_texts 123 [("service", service)]) rfl
    · have hnode : dependencyNode (.structured service condition) =
          .mapping none [field "service" (textNode service), field "condition" (textNode condition.word)] := by
        simp [dependencyNode, hdefault]
      rw [hnode]
      refine readDependency_of_content
        (content_texts 123 [("service", service), ("condition", condition.word)]) ?_
      simp [dependency?, structured?, dependencyKey?, condition?, Condition.ofWord?_word]

/-! ## Services -/

/-- Reading some fields turns one service into another.  Their keys have not been met before. -/
def Fills (keys : List String) (fields : List (Node × Node)) (before after : Service) : Prop :=
  ∀ met, (∀ key ∈ keys, key ∉ met) → ∃ met', (∀ key ∈ met', key ∈ keys ∨ key ∈ met) ∧
    fields.foldlM readField ⟨before, met⟩ = pure ⟨after, met'⟩

theorem fills_nil (key : String) (s : Service) : Fills [key] [] s s :=
  fun met _ => ⟨met, fun _ hkey => Or.inr hkey, rfl⟩

theorem fills_field {key : String} {before after : Service}
    (h : ∀ met, key ∉ met → readField ⟨before, met⟩ (field key node) = pure ⟨after, key :: met⟩) :
    Fills [key] [field key node] before after := by
  intro met hnew
  refine ⟨key :: met, fun k hk => (List.mem_cons.1 hk).imp_left List.mem_singleton.2, ?_⟩
  rw [List.foldlM_cons, h met (hnew key (List.mem_singleton_self key)), pure_bind, List.foldlM_nil]

theorem Fills.append {keys keys' : List String} {fields fields' : List (Node × Node)} {before middle after : Service}
    (h : Fills keys fields before middle) (h' : Fills keys' fields' middle after) (hapart : ∀ key ∈ keys', key ∉ keys) :
    Fills (keys ++ keys') (fields ++ fields') before after := by
  intro met hnew
  obtain ⟨met₁, hmet₁, hread⟩ := h met fun key hkey => hnew key (List.mem_append_left _ hkey)
  have hnew' : ∀ key ∈ keys', key ∉ met₁ := by
    intro key hkey hmem
    rcases hmet₁ key hmem with hmem | hmem
    · exact hapart key hkey hmem
    · exact hnew key (List.mem_append_right _ hkey) hmem
  obtain ⟨met₂, hmet₂, hread'⟩ := h' met₁ hnew'
  refine ⟨met₂, fun key hkey => ?_, ?_⟩
  · rcases hmet₂ key hkey with hkey | hkey
    · exact Or.inl (List.mem_append_right _ hkey)
    · exact (hmet₁ key hkey).imp_left (List.mem_append_left _)
  · rw [List.foldlM_append, hread, pure_bind, hread']

theorem fills_unless {key : String} {unset : Bool} {before after : Service} (hunset : unset = true → before = after)
    (h : ∀ met, key ∉ met → readField ⟨before, met⟩ (field key node) = pure ⟨after, key :: met⟩) :
    Fills [key] (if unset then [] else [field key node]) before after := by
  cases unset with
  | true =>
    rw [hunset rfl]
    exact fills_nil key after
  | false => exact fills_field h

section Fields

variable {process image : Option String} {environment : Table String} {dependsOn : List Dependency}
  {profiles : List String}

theorem fills_process (process : Option String) :
    Fills ["process"] ((process.map fun t => field "process" (textNode t)).toList)
      ⟨none, image, environment, dependsOn, profiles⟩ ⟨process, image, environment, dependsOn, profiles⟩ := by
  cases process with
  | none => exact fills_nil _ _
  | some text =>
    refine fills_field fun met hnew => ?_
    simp [readField, field, readText_textNode, readOptionalText_textNode, hnew]

theorem fills_image (image : Option String) :
    Fills ["image"] ((image.map fun t => field "image" (textNode t)).toList)
      ⟨process, none, environment, dependsOn, profiles⟩ ⟨process, image, environment, dependsOn, profiles⟩ := by
  cases image with
  | none => exact fills_nil _ _
  | some text =>
    refine fills_field fun met hnew => ?_
    simp [readField, field, readText_textNode, readOptionalText_textNode, hnew]

theorem fills_environment (h : readTable readText node = pure environment) :
    Fills ["environment"] (if environment.entries.isEmpty then [] else [field "environment" node])
      ⟨process, image, .empty, dependsOn, profiles⟩ ⟨process, image, environment, dependsOn, profiles⟩ := by
  refine fills_unless (fun hempty => ?_) fun met hnew => ?_
  · obtain ⟨entries, hascending⟩ := environment
    obtain rfl := List.isEmpty_iff.1 hempty
    rfl
  · simp [readField, field, readText_textNode, hnew, h]

theorem fills_dependsOn (dependsOn : List Dependency) :
    Fills ["depends_on"]
      (if dependsOn.isEmpty then [] else [field "depends_on" (.sequence none (dependsOn.map dependencyNode))])
      ⟨process, image, environment, [], profiles⟩ ⟨process, image, environment, dependsOn, profiles⟩ := by
  refine fills_unless (fun hempty => ?_) fun met hnew => ?_
  · rw [List.isEmpty_iff.1 hempty]
  · have hitems := mapM_map readDependency_dependencyNode dependsOn
    simp [readField, field, readText_textNode, readItems_sequence, hnew, hitems]

theorem fills_profiles (profiles : List String) :
    Fills ["profiles"] (if profiles.isEmpty then [] else [field "profiles" (.sequence none (profiles.map textNode))])
      ⟨process, image, environment, dependsOn, []⟩ ⟨process, image, environment, dependsOn, profiles⟩ := by
  refine fills_unless (fun hempty => ?_) fun met hnew => ?_
  · rw [List.isEmpty_iff.1 hempty]
  · have hitems := mapM_map readText_textNode profiles
    simp [readField, field, readText_textNode, readItems_sequence, hnew, hitems]

end Fields

theorem fills_serviceFields {environment : Node} (h : readTable readText environment = pure s.environment) :
    Fills ["process", "image", "environment", "depends_on", "profiles"] (serviceFields s environment)
      Service.blank s :=
  (fills_process s.process).append (fills_image s.image) (by decide)
    |>.append (fills_environment h) (by decide)
    |>.append (fills_dependsOn s.dependsOn) (by decide)
    |>.append (fills_profiles s.profiles) (by decide)

theorem readService_of_writtenAs (h : s.WrittenAs node) : readService node = pure s := by
  obtain ⟨environment, henvironment, rfl⟩ := h
  have htexts : readTable readText environment = pure s.environment :=
    readTable_of_writtenAs (fun text node hnode => hnode ▸ readText_textNode text) henvironment
  obtain ⟨met, -, hfields⟩ := fills_serviceFields htexts [] fun _ _ => List.not_mem_nil
  unfold readService
  rw [readEntries_mapping, pure_bind, hfields, pure_bind]

/-! ## Configurations -/

theorem readRoot_of_writtenAs {c : Config} (h : c.WrittenAs node) : readRoot node = pure c := by
  obtain ⟨services, hservices, rfl⟩ := h
  have hread := readTable_of_writtenAs (fun _ _ hnode => readService_of_writtenAs hnode) hservices
  simp [readRoot, readEntries_mapping, readRootField, field, readText_textNode, hread]

/-- **A configuration comes back from its document**, in whatever order its services and their environments are written,
and whatever else the document has anchors for.  What is left out on writing comes back as unset or empty, and nothing
that is set does; dependencies come back in their order, with their repeats and each in the form it had. -/
theorem read_written (c : Config) : c.WrittenAs c.toNode ∧
    ∀ node, c.WrittenAs node → ∀ anchors size, ofDocument? ⟨node, anchors, size⟩ = some c := by
  refine ⟨writtenAs_toNode c, fun node h anchors size => ?_⟩
  unfold ofDocument?
  rw [readRoot_of_writtenAs h]
  rfl

def twoForms : Config :=
  ⟨Table.ofList [
    ("null", { Service.blank with dependsOn := [.structured "8080" .started, .plain "8080", .plain "8080"] }),
    ("8080", { Service.blank with process := some "" })]⟩

theorem read_written_twoForms :
    ofDocument? ⟨.mapping none [field "services" (.mapping none
      [field "null" (.mapping none [field "depends_on" (.sequence none
          [.mapping none [field "service" (textNode "8080")], textNode "8080", textNode "8080"])]),
        field "8080" (.mapping none [field "process" (textNode "")])])], [], 0⟩ = some twoForms := by
  refine (read_written twoForms).2 _ ⟨_, ⟨[_, _], _, List.Perm.swap _ _ _, ?_, rfl⟩, rfl⟩ [] 0
  exact .cons ⟨_, rfl, writtenAs_serviceNode _⟩ (.cons ⟨_, rfl, writtenAs_serviceNode _⟩ .nil)

end Config

end Rollout
