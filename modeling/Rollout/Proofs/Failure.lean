import Mathlib.Data.List.Infix
import Rollout.Failure
/-!
Failures as layers around a root.  Each layer is a failed visit, and the root is whatever the innermost one was about.
A failure is its layers and its root, and can be put together of them again (`layers`, `root`, `nest`).

A failure shows its root whole: its text is what the layers put in front of it and then the text of the root, so each
text along its chain ends every text before it (`Failure.keepsRoot`).  The chain is as long as the layers are many, and
one longer if the root is an input or output error, which has its bare text behind it.
-/
namespace Rollout

namespace Failure

def layers : Failure → List String
  | visitFailed service cause => service :: cause.layers
  | _ => []

def root : Failure → Failure
  | visitFailed _ cause => cause.root
  | f => f

def nest (services : List String) (cause : Failure) : Failure := services.foldr visitFailed cause

def lead (service : String) : String := "Service '" ++ service ++ "' failed: "

theorem message_visitFailed (service : String) (cause : Failure) :
    (visitFailed service cause).message = lead service ++ cause.message := rfl

/-! ## Layers -/

theorem nest_layers (f : Failure) : nest f.layers f.root = f := by
  induction f with
  | visitFailed service cause ih => exact congrArg (visitFailed service) ih
  | _ => rfl

theorem failedService?_root (f : Failure) : f.root.failedService? = none := by
  induction f with
  | visitFailed service cause ih => exact ih
  | _ => rfl

theorem message_eq (f : Failure) : f.message = String.join (f.layers.map lead) ++ f.root.message := by
  induction f with
  | visitFailed service cause ih =>
    rw [message_visitFailed, layers, List.map_cons, String.join_cons, String.append_assoc, root, ← ih]
  | _ => exact String.empty_append.symm

/-! ## The chain -/

theorem chain_eq (f : Failure) :
    f.chain = (f.layers.tails.tail.map fun inner => (nest inner f.root).message) ++ f.root.chain := by
  induction f with
  | visitFailed service cause ih =>
    have htails : cause.layers.tails = cause.layers :: cause.layers.tails.tail := by cases cause.layers <;> rfl
    rw [chain, layers, root, List.tails_cons, List.tail_cons, htails, List.map_cons, nest_layers, List.cons_append,
      ← ih]
  | _ => rfl

theorem length_chain_root {f : Failure} (h : f.failedService? = none) :
    (∀ text, f = .io text → f.chain.length = 1) ∧ ((∀ text, f ≠ .io text) → f.chain.length = 0) := by
  cases f with
  | visitFailed service cause => cases h
  | io text => exact ⟨fun _ _ => rfl, fun hne => absurd rfl (hne text)⟩
  | _ => exact ⟨nofun, fun _ => rfl⟩

theorem length_chain (f : Failure) : f.chain.length = f.layers.length + f.root.chain.length := by
  rw [chain_eq, List.length_append, List.length_map, List.length_tail, List.length_tails, Nat.add_sub_cancel]

/-- **Each text along the chain ends every text before it.** -/
theorem pairwise_suffix (f : Failure) :
    (f.message :: f.chain).Pairwise fun outer inner => inner.toList <:+ outer.toList := by
  have hsuffix : ∀ lead text : String, text.toList <:+ (lead ++ text).toList := fun lead text => by
    rw [String.toList_append]
    exact List.suffix_append _ _
  induction f with
  | visitFailed service cause ih =>
    have hcause := hsuffix (lead service) cause.message
    refine List.pairwise_cons.2 ⟨fun text htext => ?_, ih⟩
    rcases List.mem_cons.1 htext with rfl | htext
    · exact hcause
    · exact ((List.pairwise_cons.1 ih).1 text htext).trans hcause
  | io text => exact List.pairwise_pair.2 (hsuffix "IO error: " text)
  | _ => exact List.pairwise_singleton _ _

theorem prefix_messageWithSuggestion (f : Failure) : f.message.toList <+: f.messageWithSuggestion.toList := by
  unfold messageWithSuggestion
  split
  · rw [String.toList_append, String.toList_append, List.append_assoc]
    exact List.prefix_append _ _
  · exact List.prefix_rfl

/-! ## What a failure shows of its root -/

structure KeepsRoot (f : Failure) : Prop where
  layered : nest f.layers f.root = f ∧ f.root.failedService? = none
  message : f.message = String.join (f.layers.map lead) ++ f.root.message
  chain : f.chain = (f.layers.tails.tail.map fun inner => (nest inner f.root).message) ++ f.root.chain
  length_of_io : ∀ text, f.root = .io text → f.chain.length = f.layers.length + 1
  length : (∀ text, f.root ≠ .io text) → f.chain.length = f.layers.length
  suffixes : (f.message :: f.chain).Pairwise fun outer inner => inner.toList <:+ outer.toList
  advised : f.message.toList <+: f.messageWithSuggestion.toList

/-- **A failure never loses its root**, however many failed visits there are around it. -/
theorem keepsRoot (f : Failure) : f.KeepsRoot where
  layered := ⟨f.nest_layers, f.failedService?_root⟩
  message := f.message_eq
  chain := f.chain_eq
  length_of_io := fun text htext => by rw [length_chain, (length_chain_root f.failedService?_root).1 text htext]
  length := fun hne => by rw [length_chain, (length_chain_root f.failedService?_root).2 hne, Nat.add_zero]
  suffixes := f.pairwise_suffix
  advised := f.prefix_messageWithSuggestion

example : (nest ["web", "db"] (.io "disk full")).chain =
    ["Service 'db' failed: IO error: disk full", "IO error: disk full", "disk full"] := by decide +kernel

end Failure

end Rollout
