import Mathlib.Data.List.Forall2
import Rollout.Config.Document
/-!
Two things that are said of readers.  On a tree without aliases a reader comes to a result that depends on nothing else:
no anchor is looked up, and the budget for aliases is not touched (`Settled`, `settled_readRoot`).  And a reader may
agree with another one, in what it gives back and in what it leaves of the budget, except that it may fail where the
other one does not (`Agrees`).  Both are kept by what readers are put together with.

So there is one lemma for each of the two and each way to put readers together: a result that is given back, a step
after another, a choice by what was read, a fold over entries and a pass over items.  What is said of a reader of the
configuration is then put together as the reader is.  A step may depend on what the one before gave back, and `Ensures`
says what that can be; it is what lets the steps agree only where they have to.
-/
namespace Rollout

namespace Yaml

inductive Node.Unaliased : Node → Prop where
  | scalar (tag : Option String) (isPlain : Bool) (text : String) : Unaliased (.scalar tag isPlain text)
  | sequence {tag : Option String} {items : List Node} (hitems : ∀ item ∈ items, Unaliased item) :
      Unaliased (.sequence tag items)
  | mapping {tag : Option String} {entries : List (Node × Node)} (hkeys : ∀ e ∈ entries, Unaliased e.1)
      (hvalues : ∀ e ∈ entries, Unaliased e.2) : Unaliased (.mapping tag entries)

namespace ContentM

variable {α β γ : Type}

theorem bind_apply (x : ContentM α) (f : α → ContentM β) (d : Document) (n : Nat) :
    (x >>= f) d n = (x d n).bind fun p => f p.1 d p.2 := rfl

theorem failure_bind (f : α → ContentM β) : (failure >>= f : ContentM β) = failure := rfl

/-! ## Readers that look at nothing but the tree -/

def given : Option α → ContentM α
  | some a => pure a
  | none => failure

def Settled (x : ContentM α) : Prop := ∃ o, x = given o

theorem settled_pure (a : α) : Settled (pure a) := ⟨some a, rfl⟩

theorem settled_failure : Settled (failure : ContentM α) := ⟨none, rfl⟩

theorem Settled.bind {x : ContentM α} {f : α → ContentM β} (hx : Settled x) (hf : ∀ a, Settled (f a)) :
    Settled (x >>= f) := by
  obtain ⟨o, rfl⟩ := hx
  cases o with
  | none => exact settled_failure
  | some a => exact hf a

theorem settled_mapM {f : α → ContentM β} : ∀ l : List α, (∀ a ∈ l, Settled (f a)) → Settled (l.mapM f)
  | [], _ => settled_pure []
  | a :: l, h => by
    have htail := settled_mapM l fun b hb => h b (List.mem_cons_of_mem a hb)
    rw [List.mapM_cons]
    exact (h a List.mem_cons_self).bind fun b => htail.bind fun bs => settled_pure (b :: bs)

theorem settled_foldlM {f : β → α → ContentM β} : ∀ (l : List α) (b : β), (∀ b, ∀ a ∈ l, Settled (f b a)) →
    Settled (l.foldlM f b)
  | [], b, _ => settled_pure b
  | a :: l, b, h => by
    rw [List.foldlM_cons]
    exact (h b a List.mem_cons_self).bind fun b =>
      settled_foldlM l b fun b' a' ha' => h b' a' (List.mem_cons_of_mem a ha')

theorem Settled.run_eq {x : ContentM α} (h : Settled x) (d d' : Document) : run d x = run d' x := by
  obtain ⟨o, rfl⟩ := h
  cases o with
  | none => rfl
  | some a => rfl

theorem follow_eq {node : Node} (h : node.Unaliased) : follow node = pure node := by
  cases h with
  | scalar tag isPlain text => rfl
  | sequence hitems => rfl
  | mapping hkeys hvalues => rfl

/-! ## Readers that agree -/

/-- `y` does what `x` does, except that it may fail instead. -/
def Agrees (mayFail : Prop) (x y : ContentM α) : Prop := ∀ d n, y d n = x d n ∨ mayFail ∧ y d n = none

def Ensures (x : ContentM α) (P : α → Prop) : Prop := ∀ d n a n', x d n = some (a, n') → P a

section Agrees

variable {mayFail : Prop} {P : α → Prop}

theorem agrees_refl (x : ContentM α) : Agrees mayFail x x := fun _ _ => Or.inl rfl

theorem agrees_failure (h : mayFail) (x : ContentM α) : Agrees mayFail x failure := fun _ _ => Or.inr ⟨h, rfl⟩

theorem ensures_true (x : ContentM α) : Ensures x fun _ => True := fun _ _ _ _ _ => trivial

theorem ensures_pure {a : α} (h : P a) : Ensures (pure a) P := by
  intro d n a' n' heq
  cases heq
  exact h

theorem ensures_failure : Ensures (failure : ContentM α) P := fun _ _ _ _ h => by cases h

theorem ensures_bind (x : ContentM α) {f : α → ContentM β} {Q : β → Prop} (hf : ∀ a, Ensures (f a) Q) :
    Ensures (x >>= f) Q := by
  intro d n b n' heq
  rw [bind_apply] at heq
  obtain ⟨⟨a, m⟩, -, hfa⟩ := Option.bind_eq_some_iff.1 heq
  exact hf a d m b n' hfa

theorem Agrees.bind {x y : ContentM α} {f g : α → ContentM β} (hx : Agrees mayFail x y) (hP : Ensures x P)
    (hf : ∀ a, P a → Agrees mayFail (f a) (g a)) : Agrees mayFail (x >>= f) (y >>= g) := by
  intro d n
  rw [bind_apply, bind_apply]
  rcases hx d n with heq | ⟨hfail, hnone⟩
  · rw [heq]
    cases hx' : x d n with
    | none => exact Or.inl rfl
    | some p => exact hf p.1 (hP d n p.1 p.2 hx') d p.2
  · rw [hnone]
    exact Or.inr ⟨hfail, rfl⟩

theorem Agrees.bind_right {x : ContentM α} {f g : α → ContentM β} (hf : ∀ a, Agrees mayFail (f a) (g a)) :
    Agrees mayFail (x >>= f) (x >>= g) := (agrees_refl x).bind (ensures_true x) fun a _ => hf a

theorem Agrees.bind_left {x y : ContentM α} (hx : Agrees mayFail x y) (f : α → ContentM β) :
    Agrees mayFail (x >>= f) (y >>= f) := hx.bind (ensures_true x) fun a _ => agrees_refl (f a)

theorem agrees_mapM {f : α → ContentM β} {l l' : List α}
    (h : List.Forall₂ (fun a a' => Agrees mayFail (f a) (f a')) l l') :
    Agrees mayFail (l.mapM f) (l'.mapM f) := by
  induction h with
  | nil => exact agrees_refl _
  | cons hhead _ ih =>
    rw [List.mapM_cons, List.mapM_cons]
    exact hhead.bind (ensures_true _) fun b _ => ih.bind_left _

theorem Agrees.run {x y : ContentM α} (h : Agrees mayFail x y) (d : Document) :
    run d y = run d x ∨ mayFail ∧ run d y = none := by
  refine (h d (budget d)).imp (fun heq => ?_) (And.imp_right fun hnone => ?_)
  · exact congrArg (Option.map Prod.fst) heq
  · exact congrArg (Option.map Prod.fst) hnone

end Agrees

/-! ## Contents -/

theorem content_scalar (depth : Nat) (tag : Option String) (isPlain : Bool) (text : String) :
    content depth (.scalar tag isPlain text) = given (Content.ofScalar tag isPlain text) := by
  rw [content, follow_eq (.scalar tag isPlain text), pure_bind]
  dsimp only
  cases Content.ofScalar tag isPlain text with
  | none => rfl
  | some c => rfl

theorem content_zero_sequence (tag : Option String) (items : List Node) :
    content 0 (.sequence tag items) = failure := by
  rw [content]
  exact ite_self _

theorem content_zero_mapping (tag : Option String) (entries : List (Node × Node)) :
    content 0 (.mapping tag entries) = failure := by
  rw [content]
  exact ite_self _

theorem content_sequence (depth : Nat) (tag : Option String) (items : List Node) :
    content (depth + 1) (.sequence tag items) =
      if Content.isLocalTag tag then failure else items.mapM (content depth) >>= fun _ => pure .sequence := by
  have hloop : ∀ items : List Node, (do
      for item in items do
        let _ ← content depth item
      return Content.sequence) = (items.mapM (content depth) >>= fun _ => pure .sequence : ContentM Content) := by
    intro items
    induction items with
    | nil => rfl
    | cons item items ih =>
      simp only [List.mapM_cons, List.forIn_cons, bind_assoc, pure_bind]
      exact bind_congr fun _ => ih
  rw [content]
  show (if _ then _ else _) = _
  split
  · rfl
  · exact hloop items

theorem content_mapping (depth : Nat) (tag : Option String) (entries : List (Node × Node)) :
    content (depth + 1) (.mapping tag entries) =
      if Content.isLocalTag tag then failure
      else (entries.mapM fun e => do return (← content depth e.1, ← content depth e.2)) >>= fun contents =>
        pure (.mapping contents) := by
  rw [content]
  show (if _ then _ else _) = _
  split
  · rfl
  · rfl

theorem settled_content {node : Node} (h : node.Unaliased) : ∀ depth, Settled (content depth node) := by
  induction h with
  | scalar tag isPlain text => exact fun depth => ⟨_, content_scalar depth tag isPlain text⟩
  | @sequence tag items _ ih =>
    intro depth
    cases depth with
    | zero => exact content_zero_sequence tag items ▸ settled_failure
    | succ depth =>
      rw [content_sequence]
      split
      · exact settled_failure
      · exact (settled_mapM items fun item hitem => ih item hitem depth).bind fun _ => settled_pure _
  | @mapping tag entries _ _ ihkeys ihvalues =>
    intro depth
    cases depth with
    | zero => exact content_zero_mapping tag entries ▸ settled_failure
    | succ depth =>
      rw [content_mapping]
      split
      · exact settled_failure
      · refine (settled_mapM entries fun e he => ?_).bind fun _ => settled_pure _
        exact (ihkeys e he depth).bind fun _ => (ihvalues e he depth).bind fun _ => settled_pure _

end ContentM

end Yaml

namespace Config

open Yaml (Node ContentM)
open Yaml.ContentM

variable {α : Type} {node : Node}

/-! ## The readers of a configuration -/

theorem settled_readText (h : node.Unaliased) : Settled (readText node) := by
  cases h with
  | scalar tag isPlain text => exact settled_pure text
  | sequence hitems => exact settled_failure
  | mapping hkeys hvalues => exact settled_failure

theorem settled_readOptionalText (h : node.Unaliased) : Settled (readOptionalText node) := by
  unfold readOptionalText
  rw [follow_eq h, pure_bind]
  cases h with
  | scalar tag isPlain text =>
    dsimp only
    split
    · exact settled_pure _
    · split
      · exact settled_pure _
      · split
        · split
          · exact settled_pure _
          · exact settled_failure
        · exact settled_pure _
  | sequence hitems => exact settled_failure
  | mapping hkeys hvalues => exact settled_failure

theorem readEntries_mapping (tag : Option String) (entries : List (Node × Node)) :
    readEntries (.mapping tag entries) = pure entries := rfl

theorem readEntries_cases (h : node.Unaliased) : readEntries node = failure ∨
    ∃ entries, readEntries node = pure entries ∧ ∀ e ∈ entries, e.1.Unaliased ∧ e.2.Unaliased := by
  cases h with
  | scalar tag isPlain text =>
    unfold readEntries
    rw [follow_eq (.scalar tag isPlain text), pure_bind]
    dsimp only
    split
    · exact Or.inr ⟨[], rfl, nofun⟩
    · exact Or.inl rfl
  | sequence hitems => exact Or.inl rfl
  | mapping hkeys hvalues => exact Or.inr ⟨_, rfl, fun e he => ⟨hkeys e he, hvalues e he⟩⟩

theorem readItems_cases (h : node.Unaliased) : readItems node = failure ∨
    ∃ items, readItems node = pure items ∧ ∀ item ∈ items, item.Unaliased := by
  cases h with
  | scalar tag isPlain text =>
    unfold readItems
    rw [follow_eq (.scalar tag isPlain text), pure_bind]
    dsimp only
    split
    · exact Or.inr ⟨[], rfl, nofun⟩
    · exact Or.inl rfl
  | sequence hitems => exact Or.inr ⟨_, rfl, hitems⟩
  | mapping hkeys hvalues => exact Or.inl rfl

theorem settled_items {read : Node → ContentM α} (hread : ∀ item, item.Unaliased → Settled (read item))
    (h : node.Unaliased) : Settled (do (← readItems node).mapM read) := by
  rcases readItems_cases h with hfail | ⟨items, hitems, hplain⟩
  · rw [hfail, failure_bind]
    exact settled_failure
  · rw [hitems, pure_bind]
    exact settled_mapM items fun item hitem => hread item (hplain item hitem)

theorem settled_readTable {value : Node → ContentM α} (hvalue : ∀ node, node.Unaliased → Settled (value node))
    (h : node.Unaliased) : Settled (readTable value node) := by
  unfold readTable
  rcases readEntries_cases h with hfail | ⟨entries, hentries, hplain⟩
  · rw [hfail, failure_bind]
    exact settled_failure
  · rw [hentries, pure_bind]
    refine (settled_mapM entries fun e he => ?_).bind fun _ => settled_pure _
    obtain ⟨hkey, hnode⟩ := hplain e he
    exact (settled_readText hkey).bind fun _ => (hvalue e.2 hnode).bind fun _ => settled_pure _

theorem settled_readDependency (h : node.Unaliased) : Settled (readDependency node) := by
  unfold readDependency
  refine (settled_content h _).bind fun c => ?_
  split
  · exact settled_pure _
  · exact settled_failure

theorem settled_readField (d : Draft) {entry : Node × Node} (hkey : entry.1.Unaliased) (hvalue : entry.2.Unaliased) :
    Settled (readField d entry) := by
  have htexts := settled_readTable (fun _ => settled_readText) hvalue
  have hdependencies := settled_items (fun _ => settled_readDependency) hvalue
  have hprofiles := settled_items (fun _ => settled_readText) hvalue
  unfold readField
  refine (settled_readText hkey).bind fun key => ?_
  dsimp only
  split
  · exact settled_failure
  · split
    · exact (settled_readOptionalText hvalue).bind fun _ => settled_pure _
    · exact (settled_readOptionalText hvalue).bind fun _ => settled_pure _
    · exact htexts.bind fun _ => settled_pure _
    · rw [← bind_assoc]
      exact hdependencies.bind fun _ => settled_pure _
    · rw [← bind_assoc]
      exact hprofiles.bind fun _ => settled_pure _
    · exact settled_pure d

theorem settled_readService (h : node.Unaliased) : Settled (readService node) := by
  unfold readService
  rcases readEntries_cases h with hfail | ⟨entries, hentries, hplain⟩
  · rw [hfail, failure_bind]
    exact settled_failure
  · rw [hentries, pure_bind]
    refine (settled_foldlM entries _ fun d e he => ?_).bind fun _ => settled_pure _
    exact settled_readField d (hplain e he).1 (hplain e he).2

theorem settled_readRootField (services : Option (Table Service)) {entry : Node × Node} (hkey : entry.1.Unaliased)
    (hvalue : entry.2.Unaliased) : Settled (readRootField services entry) := by
  unfold readRootField
  refine (settled_readText hkey).bind fun key => ?_
  split
  · split
    · exact settled_failure
    · exact (settled_readTable (fun _ => settled_readService) hvalue).bind fun _ => settled_pure _
  · exact settled_pure services

/-- **A configuration without aliases is read by itself.** -/
theorem settled_readRoot (h : node.Unaliased) : Settled (readRoot node) := by
  unfold readRoot
  rcases readEntries_cases h with hfail | ⟨entries, hentries, hplain⟩
  · rw [hfail, failure_bind]
    exact settled_failure
  · rw [hentries, pure_bind]
    refine (settled_foldlM entries _ fun services e he => ?_).bind fun _ => settled_pure _
    exact settled_readRootField services (hplain e he).1 (hplain e he).2

end Config

end Rollout
