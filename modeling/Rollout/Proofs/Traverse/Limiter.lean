import Rollout.Proofs.Deployment
import Rollout.Proofs.Walk.Accounts
/-!
What a limit does to a traversal.  In every state that a limited traversal goes through, the slots held and the free
ones are as many as the limit allows, and a ledger of who asks for a slot, is given one and gives one back is in order
(`traverse_limited`).

A ledger is kept beside the states of a run, since the states themselves do not remember who asked first.  One turn adds
one entry of each kind at most, so what happens first stands first in it.  The statement here puts together what is said
of slots, of the line for them and of the ledger elsewhere, for a deployment and the limit that it is given.
-/
namespace Rollout

open State (Reached)

namespace Deployment

variable {d : Deployment} {t : Traversal}

/-- **The slots of a limited traversal are accounted for in every state it goes through**: none is lost or given back
twice, none is free while a visit waits for one, and they are granted in the order in which visits ask.  The ledger has
everything in the order in which it happens, as a turn adds one entry of each kind at most. -/
theorem traverse_limited (hd : d.Sound) (ht : t.Known d.graph) {n : Nat} (hn : n ≤ Limit.most) (visitor : Visitor)
    (callerCancelled : Bool) :
    ∃ limit w, Limit.ofNat? n = some limit ∧ t.walk d.graph (some limit) visitor = .ok w ∧
      (∀ script, ∀ s ∈ (State.start w d.statuses callerCancelled).rests w script,
        ∃ acts, Reached w d.statuses callerCancelled acts s) ∧
      (∀ acts s, Reached w d.statuses callerCancelled acts s →
        (∃ l, Watched w d.statuses callerCancelled acts l s) ∧
        ∀ l : Ledger, ∃ asked granted returned : Option String, l.watch w s.desk (s.step w).desk =
          ⟨l.asked ++ asked.toList, l.granted ++ granted.toList, l.returned ++ returned.toList⟩) ∧
      ∀ acts l s, Watched w d.statuses callerCancelled acts l s →
        Reached w d.statuses callerCancelled acts s ∧ l.Accounts (max 1 n) s := by
  obtain ⟨limit, hlimit⟩ := Limit.exists_ofNat? hn
  obtain ⟨w, hwalk, -⟩ := hd.exists_walk ht (some limit) visitor
  obtain ⟨hw, -, hst⟩ := hd.of_walk hwalk
  obtain ⟨scope, -, rfl⟩ := walk_eq hwalk
  refine ⟨limit, _, hlimit, hwalk, fun script s hs => ?_, fun acts s h => ⟨Watched.of_reached h, ?_⟩,
    fun acts l s h => ?_⟩
  · obtain ⟨played, -, hreached⟩ := State.reached_of_mem_rests hs
    exact ⟨_, hreached⟩
  · exact Ledger.watch_turn hw (h.orderly hw hst rfl) (State.turn_desk rfl s)
  · rw [← Limit.slots_of_ofNat? hlimit]
    exact ⟨h.reached, h.accounts hw hst rfl⟩

theorem traverse_limited_apart : ∃ limit w acts l s, Limit.ofNat? 0 = some limit ∧
    Traversal.forward.walk apart.graph (some limit) (fun _ => [.wait]) = .ok w ∧
      Watched w apart.statuses false acts l s ∧ l.granted.count "api" = 1 ∧ l.asked = l.granted ++ ["db"] ∧
      l.granted.length = 1 + l.returned.length := by
  obtain ⟨limit, w, hlimit, hwalk, hrests, hwatched, haccounts⟩ := traverse_limited (t := .forward) sound_apart nofun
    (n := 0) (by decide) (fun _ => [.wait]) false
  obtain rfl : limit = ⟨1, by decide, by decide⟩ := Option.some.inj (hlimit.symm.trans rfl)
  obtain rfl := Except.ok.inj (hwalk.symm.trans rfl)
  obtain ⟨acts, h⟩ := hrests [] _ List.mem_cons_self
  obtain ⟨⟨l, hl⟩, -⟩ := hwatched acts _ h
  obtain ⟨-, hin⟩ := haccounts acts l _ hl
  refine ⟨_, _, acts, l, _, hlimit, hwalk, hl, hin.began "api" (by decide +kernel), ?_, ?_⟩
  · exact (hin.order (by decide +kernel)).trans (congrArg (l.granted ++ ·) (by decide +kernel))
  · have hfree := hin.spent "db" (by decide +kernel)
    have hbalance := hin.balance
    rwa [hfree, Nat.zero_add] at hbalance

end Deployment

end Rollout
