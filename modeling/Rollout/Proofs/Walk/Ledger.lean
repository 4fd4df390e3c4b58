import Rollout.Proofs.Walk.Desk
import Rollout.Proofs.Walk.Late
/-!
What an onlooker at the desk of a limited walk can write down: who asks for a slot, who is given one and who gives one
back, in this order (`Ledger.watch`).  In every state of a walk the ledger agrees with the desk (`Ledger.Agrees`).  Each
visit has gone through as much as its standing says, the slots given back and those at the desk balance those handed
out, and as long as nothing is cancelled, those who have asked were given their slots in that order, and the others
stand in line.

The onlooker sees the desk before and after a turn and writes down what is new: the services for which something holds
now that did not hold before (`newly`).  One turn lets one visit stand differently, and a slot that is given back lets a
second one; for each kind of turn there is a lemma that says what is written down (`watch_handOver`, `watch_giveBack`,
`watch_goAway`).  So a turn adds one entry of each kind at most, and the ledger has everything in the order in which it
happens (`watch_turn`).

To agree with the desk is said visit by visit and for the desk as a whole.  A visit that stands so has asked, got a slot
and given one back so many times (`Tally`), each once at most; and the slots handed out are those given back and those
that visits have.
-/
namespace Rollout

/-- How the standing of one visit can change. -/
inductive Standing.Later : Option Standing → Option Standing → Prop where
  | none : Later none none
  | some {old new : Standing} : old.rank ≤ new.rank → Later (some old) (some new)

theorem Standing.Later.refl (standing : Option Standing) : Standing.Later standing standing := by
  cases standing with
  | none => exact .none
  | some standing => exact .some (Nat.le_refl _)

theorem Standing.Later.trans {a b c : Option Standing} (hab : Standing.Later a b) (hbc : Standing.Later b c) :
    Standing.Later a c := by
  cases hab with
  | none => exact hbc
  | some hle =>
    cases hbc with
    | some hle' => exact .some (hle.trans hle')

/-! ## Looking at the desk twice -/

namespace Desk

variable {w : Walk} {d d' e : Desk} {p : Standing → Bool} {name n : String} {old new : Standing}

/-- The services for which something holds after a while that did not hold before. -/
def newly (w : Walk) (p : Standing → Bool) (before after : Desk) : List String :=
  w.scope.filter fun n => !(before.standing n).any p && (after.standing n).any p

theorem newly_eq_nil (h : ∀ n, (d'.standing n).any p = true → (d.standing n).any p = true) : newly w p d d' = [] := by
  refine List.filter_eq_nil_iff.2 fun n _ hn => ?_
  rw [Bool.and_eq_true, Bool.not_eq_true'] at hn
  rw [h n hn.2] at hn
  cases hn.1

theorem newly_eq_singleton (hw : w.Sound) (hname : name ∈ w.scope) (hbefore : (d.standing name).any p = false)
    (hafter : (d'.standing name).any p = true)
    (hothers : ∀ n, n ≠ name → (d'.standing n).any p = true → (d.standing n).any p = true) :
    newly w p d d' = [name] := by
  have honly : newly w p d d' = w.scope.filter (· = name) := by
    refine List.filter_congr fun n _ => ?_
    by_cases hn : n = name
    · subst hn
      simp [hbefore, hafter]
    · have hother := hothers n hn
      cases ha : (d'.standing n).any p with
      | false => simp [hn]
      | true => simp [hn, hother ha]
  rw [honly, List.filter_eq, hw.nodup.count, if_pos hname]
  rfl

theorem newly_put (hw : w.Sound) (hname : name ∈ w.scope) (h : d.standing name = some old)
    (hsame : e.standing = d.standing) (p : Standing → Bool) (new : Standing) :
    newly w p d (e.put name new) = if !p old && p new then [name] else [] := by
  have hafter : (e.put name new).standing name = some new := standing_put_self (hsame ▸ h)
  have hothers : ∀ n, n ≠ name → (e.put name new).standing n = d.standing n := by
    intro n hn
    rw [standing_put_other hn, hsame]
  split
  · rename_i hp
    rw [Bool.and_eq_true, Bool.not_eq_true'] at hp
    refine newly_eq_singleton hw hname ?_ ?_ fun n hn => ?_
    · rw [h]
      exact hp.1
    · rw [hafter]
      exact hp.2
    · rw [hothers n hn]
      exact id
  · rename_i hp
    refine newly_eq_nil fun n hn => ?_
    by_cases heq : n = name
    · subst heq
      rw [hafter] at hn
      rw [h]
      by_contra hold
      rw [Option.any_some] at hn hold
      exact hp (by rw [hn, Bool.eq_false_iff.2 hold]; rfl)
    · rwa [hothers n heq] at hn

theorem put_put (h : d.standing name = some old) (new : Standing) : (d.put name new).put name old = d := by
  refine Desk.ext ?_ rfl rfl
  funext n
  by_cases hn : n = name
  · subst hn
    rw [standing_put_self (standing_put_self h), h]
  · rw [standing_put_other hn, standing_put_other hn]

theorem newly_put_back (hw : w.Sound) (hname : name ∈ w.scope) (h : d.standing name = some old)
    (hsame : e.standing = d.standing) (p : Standing → Bool) (new : Standing) :
    newly w p (e.put name new) d = if !p new && p old then [name] else [] := by
  have hback := newly_put (e := e.put name new) hw hname (standing_put_self (hsame ▸ h)) rfl p old
  rw [put_put (hsame ▸ h)] at hback
  rw [← hback]
  unfold newly
  rw [hsame]

theorem count_newly (hw : w.Sound) (hn : n ∉ w.scope → d'.standing n = none) :
    (newly w p d d').count n = if !(d.standing n).any p && (d'.standing n).any p then 1 else 0 := by
  unfold newly
  split
  · rename_i hp
    have hmem : n ∈ w.scope := by
      by_contra hout
      rw [hn hout, Option.any_none, Bool.and_false] at hp
      cases hp
    exact List.count_eq_one_of_mem (hw.nodup.filter _) (List.mem_filter.2 ⟨hmem, hp⟩)
  · rename_i hp
    exact List.count_eq_zero.2 fun hmem => hp (List.mem_filter.1 hmem).2

/-! ## Nobody goes back -/

def Later (d d' : Desk) : Prop := ∀ n, Standing.Later (d.standing n) (d'.standing n)

theorem later_put (h : d.standing name = some old) (hle : old.rank ≤ new.rank) : d.Later (d.put name new) := fun n => by
  by_cases hn : n = name
  · subst hn
    rw [h, standing_put_self h]
    exact .some hle
  · rw [standing_put_other hn]
    exact .refl _

theorem later_pass (d : Desk) : d.Later d.pass := by
  unfold pass
  split
  · exact fun _ => .refl _
  · rename_i next rest _
    split
    · rename_i h
      exact later_put (d := { d with line := rest }) h (by decide)
    · exact fun _ => .refl _

theorem Turn.later {cancelled : Bool} (hturn : d.Turn cancelled d') : d.Later d' := by
  cases hturn with
  | still => exact fun _ => .refl _
  | take h _ => exact later_put (d := { d with free := d.free - 1 }) h (by decide)
  | @lineUp name h _ => exact later_put (d := { d with line := d.line ++ [name] }) h (by decide)
  | turnAway h _ => exact later_put h (by decide)
  | @leave name h _ => exact later_put (d := { d with line := d.line.erase name }) h (by decide)
  | giveBack h => exact fun n => (later_put h (by decide) n).trans (later_pass _ n)

end Desk

/-! ## The ledger -/

/-- What an onlooker writes down about the slots of a walk, oldest first. -/
structure Ledger where
  /-- Who asks for a slot. -/
  asked : List String
  /-- Who is given one. -/
  granted : List String
  /-- Who gives one back. -/
  returned : List String

/-- What a visit that stands so has in the ledger: how often it has asked, got a slot and given one back. -/
inductive Tally : Option Standing → Nat → Nat → Nat → Prop where
  | uncovered : Tally none 0 0 0
  | before : Tally (some .before) 0 0 0
  | inLine : Tally (some .inLine) 1 0 0
  | holding : Tally (some .holding) 1 1 0
  /-- It was turned away before it had asked. -/
  | turnedAway : Tally (some .gone) 0 0 0
  /-- It has left the line. -/
  | left : Tally (some .gone) 1 0 0
  | gaveBack : Tally (some .gone) 1 1 1

theorem Tally.later {before after : Option Standing} {asked granted returned : Nat}
    (h : Tally before asked granted returned) (hlater : Standing.Later before after) :
    Tally after (asked + if !before.any Standing.asks && after.any Standing.asks then 1 else 0)
      (granted + if !before.any Standing.holds && after.any Standing.holds then 1 else 0)
      (returned + if !after.any Standing.holds && before.any Standing.holds then 1 else 0) := by
  cases hlater with
  | none =>
    cases h
    exact .uncovered
  | @some old new hle =>
    cases h with
    | before =>
      cases new with
      | before => exact .before
      | inLine => exact .inLine
      | holding => exact .holding
      | gone => exact .turnedAway
    | inLine =>
      cases new with
      | before => exact absurd hle (by decide)
      | inLine => exact .inLine
      | holding => exact .holding
      | gone => exact .left
    | holding =>
      cases new with
      | holding => exact .holding
      | gone => exact .gaveBack
      | _ => exact absurd hle (by decide)
    | turnedAway =>
      cases new with
      | gone => exact .turnedAway
      | _ => exact absurd hle (by decide)
    | left =>
      cases new with
      | gone => exact .left
      | _ => exact absurd hle (by decide)
    | gaveBack =>
      cases new with
      | gone => exact .gaveBack
      | _ => exact absurd hle (by decide)

namespace Ledger

variable {w : Walk} {l : Ledger} {d d' e : Desk} {name next : String} {old : Standing}
  {slots : Nat} {cancelled cancelled' : Bool}

def blank : Ledger := ⟨[], [], []⟩

/-- Writes down what has changed at the desk from one look at it to the next. -/
def watch (w : Walk) (l : Ledger) (before after : Desk) : Ledger where
  asked := l.asked ++ Desk.newly w Standing.asks before after
  granted := l.granted ++ Desk.newly w Standing.holds before after
  returned := l.returned ++ Desk.newly w Standing.holds after before

theorem watch_of_standing (h : d'.standing = d.standing) : l.watch w d d' = l := by
  have hnothing : ∀ p, Desk.newly w p d d' = [] ∧ Desk.newly w p d' d = [] := fun p =>
    ⟨Desk.newly_eq_nil fun n hn => h ▸ hn, Desk.newly_eq_nil fun n hn => h ▸ hn⟩
  unfold watch
  rw [(hnothing _).1, (hnothing _).1, (hnothing _).2, List.append_nil, List.append_nil, List.append_nil]

theorem watch_put (hw : w.Sound) (hname : name ∈ w.scope) (h : d.standing name = some old)
    (hsame : e.standing = d.standing) (new : Standing) : l.watch w d (e.put name new) =
      ⟨l.asked ++ if !old.asks && new.asks then [name] else [],
        l.granted ++ if !old.holds && new.holds then [name] else [],
        l.returned ++ if !new.holds && old.holds then [name] else []⟩ := by
  unfold watch
  rw [Desk.newly_put hw hname h hsame, Desk.newly_put hw hname h hsame, Desk.newly_put_back hw hname h hsame]

theorem watch_handOver (hw : w.Sound) (hname : name ∈ w.scope) (h : d.standing name = some .holding)
    (hmem : next ∈ w.scope) (hnext : d.standing next = some .inLine)
    (hsame : e.standing = (d.put name .gone).standing) : l.watch w d (e.put next .holding) =
      ⟨l.asked, l.granted ++ [next], l.returned ++ [name]⟩ := by
  have hne : next ≠ name := by
    rintro rfl
    cases h.symm.trans hnext
  have hself : (e.put next .holding).standing next = some .holding := by
    have hbefore : e.standing next = some .inLine := by
      rw [hsame, Desk.standing_put_other hne, hnext]
    exact Desk.standing_put_self hbefore
  have hgone : (e.put next .holding).standing name = some .gone := by
    rw [Desk.standing_put_other hne.symm, hsame, Desk.standing_put_self h]
  have hothers : ∀ n, n ≠ next → n ≠ name → (e.put next .holding).standing n = d.standing n := by
    intro n hn hn'
    rw [Desk.standing_put_other hn, hsame, Desk.standing_put_other hn']
  have hasked : Desk.newly w Standing.asks d (e.put next .holding) = [] := by
    refine Desk.newly_eq_nil fun n hn => ?_
    by_cases h₁ : n = next
    · rw [h₁, hnext]
      rfl
    · by_cases h₂ : n = name
      · rw [h₂, h]
        rfl
      · rwa [hothers n h₁ h₂] at hn
  have hgranted : Desk.newly w Standing.holds d (e.put next .holding) = [next] := by
    refine Desk.newly_eq_singleton hw hmem (by rw [hnext]; rfl) (by rw [hself]; rfl) fun n h₁ hn => ?_
    by_cases h₂ : n = name
    · rw [h₂, h]
      rfl
    · rwa [hothers n h₁ h₂] at hn
  have hreturned : Desk.newly w Standing.holds (e.put next .holding) d = [name] := by
    refine Desk.newly_eq_singleton hw hname (by rw [hgone]; rfl) (by rw [h]; rfl) fun n h₂ hn => ?_
    by_cases h₁ : n = next
    · rw [h₁, hself]
      rfl
    · rwa [hothers n h₁ h₂]
  unfold watch
  rw [hasked, hgranted, hreturned, List.append_nil]

/-! ### What a turn adds -/

theorem watch_take (hw : w.Sound) (hd : d.Orderly w) (hname : d.standing name = some .before)
    (hsame : e.standing = d.standing) :
    l.watch w d (e.put name .holding) = ⟨l.asked ++ [name], l.granted ++ [name], l.returned⟩ := by
  rw [watch_put hw (hd.covered name _ hname) hname hsame]
  simp

theorem watch_lineUp (hw : w.Sound) (hd : d.Orderly w) (hname : d.standing name = some .before)
    (hsame : e.standing = d.standing) :
    l.watch w d (e.put name .inLine) = ⟨l.asked ++ [name], l.granted, l.returned⟩ := by
  rw [watch_put hw (hd.covered name _ hname) hname hsame]
  simp

theorem watch_goAway (hw : w.Sound) (hd : d.Orderly w) (hname : d.standing name = some old) (hold : old.holds = false)
    (hsame : e.standing = d.standing) : l.watch w d (e.put name .gone) = l := by
  rw [watch_put hw (hd.covered name _ hname) hname hsame]
  cases old with
  | holding => cases hold
  | _ => simp

theorem watch_giveBack (hw : w.Sound) (hd : d.Orderly w) (hname : d.standing name = some .holding) :
    l.watch w d (d.put name .gone).pass =
      ⟨l.asked, l.granted ++ d.line.head?.toList, l.returned ++ [name]⟩ := by
  cases hline : d.line with
  | nil =>
    have hpass : (d.put name .gone).pass = { d with free := d.free + 1 }.put name .gone :=
      Desk.pass_of_nil (d := d.put name .gone) hline
    rw [hpass, watch_put (e := { d with free := d.free + 1 }) hw (hd.covered name _ hname) hname rfl]
    simp
  | cons next rest =>
    have hnext : d.standing next = some .inLine := hd.lined next (hline ▸ List.mem_cons_self)
    have hne : next ≠ name := by
      rintro rfl
      cases hname.symm.trans hnext
    rw [Desk.pass_of_cons (d := d.put name .gone) hline ((Desk.standing_put_other hne).trans hnext)]
    exact watch_handOver hw (hd.covered name _ hname) hname (hd.covered next _ hnext) hnext rfl

/-- **A turn adds at most one entry of each kind**, so the ledger has everything in the order in which it happens. -/
theorem watch_turn (hw : w.Sound) (hd : d.Orderly w) (hturn : d.Turn cancelled d') (l : Ledger) :
    ∃ asked granted returned : Option String, l.watch w d d' =
      ⟨l.asked ++ asked.toList, l.granted ++ granted.toList, l.returned ++ returned.toList⟩ := by
  have hnothing : l = ⟨l.asked ++ [], l.granted ++ [], l.returned ++ []⟩ := by simp
  cases hturn with
  | still => exact ⟨none, none, none, (watch_of_standing rfl).trans hnothing⟩
  | @take name hname _ =>
    refine ⟨some name, some name, none, ?_⟩
    rw [watch_take (e := { d with free := d.free - 1 }) hw hd hname rfl]
    simp
  | @lineUp name hname _ =>
    refine ⟨some name, none, none, ?_⟩
    rw [watch_lineUp (e := { d with line := d.line ++ [name] }) hw hd hname rfl]
    simp
  | turnAway hname _ => exact ⟨none, none, none, (watch_goAway hw hd hname rfl rfl).trans hnothing⟩
  | @leave name hname _ =>
    exact ⟨none, none, none,
      (watch_goAway (e := { d with line := d.line.erase name }) hw hd hname rfl rfl).trans hnothing⟩
  | @giveBack name hname =>
    refine ⟨none, d.line.head?, some name, ?_⟩
    rw [watch_giveBack hw hd hname]
    simp

/-! ### What the ledger says of the desk -/

structure Agrees (slots : Nat) (cancelled : Bool) (l : Ledger) (d : Desk) : Prop where
  tally : ∀ n, Tally (d.standing n) (l.asked.count n) (l.granted.count n) (l.returned.count n)
  balance : d.free + l.granted.length = slots + l.returned.length
  /-- Slots are given to those who ask in the order in which they ask. -/
  order : cancelled = false → l.asked = l.granted ++ d.line

theorem Agrees.imp (h : l.Agrees slots cancelled d) (hcancelled : cancelled' = false → cancelled = false) :
    l.Agrees slots cancelled' d := ⟨h.tally, h.balance, fun hc => h.order (hcancelled hc)⟩

theorem Agrees.tally_watch (h : l.Agrees slots cancelled d) (hw : w.Sound) (hd : d.Orderly w) (hlater : d.Later d')
    (n : String) : Tally (d'.standing n) ((l.watch w d d').asked.count n) ((l.watch w d d').granted.count n)
      ((l.watch w d d').returned.count n) := by
  have hbefore : n ∉ w.scope → d.standing n = none := fun hout =>
    Option.eq_none_iff_forall_ne_some.2 fun standing hn => hout (hd.covered n standing hn)
  have hafter : n ∉ w.scope → d'.standing n = none := by
    intro hout
    have hl := hlater n
    rw [hbefore hout] at hl
    generalize d'.standing n = after at hl
    cases hl
    rfl
  unfold watch
  dsimp only
  rw [List.count_append, List.count_append, List.count_append, Desk.count_newly hw hafter, Desk.count_newly hw hafter,
    Desk.count_newly hw hbefore]
  exact (h.tally n).later (hlater n)

/-- **The ledger and the desk agree after a turn** if they did before it. -/
theorem Agrees.turn (h : l.Agrees slots cancelled d) (hw : w.Sound) (hd : d.Orderly w) (hturn : d.Turn cancelled d') :
    (l.watch w d d').Agrees slots cancelled d' := by
  have hbalance := h.balance
  have htally := h.tally_watch hw hd hturn.later
  -- the order says nothing once the token is cancelled
  have hnever : ∀ {P : Prop}, cancelled = true → cancelled = false → P := by
    rintro P rfl hc
    cases hc
  cases hturn with
  | still =>
    rw [watch_of_standing rfl]
    exact h
  | @take name hname hfree =>
    have hempty : d.line = [] := by
      by_contra hline
      exact absurd (hd.spent hline) (Nat.ne_of_gt hfree)
    rw [watch_take (e := { d with free := d.free - 1 }) hw hd hname rfl] at htally ⊢
    refine ⟨htally, ?_, fun hc => ?_⟩
    · show d.free - 1 + (l.granted ++ [name]).length = slots + l.returned.length
      rw [List.length_append, List.length_singleton]
      omega
    · show l.asked ++ [name] = l.granted ++ [name] ++ d.line
      rw [h.order hc, hempty, List.append_nil, List.append_nil]
  | @lineUp name hname _ =>
    rw [watch_lineUp (e := { d with line := d.line ++ [name] }) hw hd hname rfl] at htally ⊢
    refine ⟨htally, hbalance, fun hc => ?_⟩
    show l.asked ++ [name] = l.granted ++ (d.line ++ [name])
    rw [h.order hc, List.append_assoc]
  | turnAway hname hc =>
    rw [watch_goAway hw hd hname rfl rfl] at htally ⊢
    exact ⟨htally, hbalance, hnever hc⟩
  | @leave name hname hc =>
    rw [watch_goAway (e := { d with line := d.line.erase name }) hw hd hname rfl rfl] at htally ⊢
    exact ⟨htally, hbalance, hnever hc⟩
  | @giveBack name hname =>
    have hfree := Desk.free_pass (d.put name .gone)
    rw [watch_giveBack hw hd hname] at htally ⊢
    refine ⟨htally, ?_, fun hc => ?_⟩
    · show (d.put name .gone).pass.free + (l.granted ++ d.line.head?.toList).length =
        slots + (l.returned ++ [name]).length
      change (d.put name .gone).pass.free + d.line.head?.toList.length = d.free + 1 at hfree
      rw [List.length_append, List.length_append, List.length_singleton]
      omega
    · show l.asked = l.granted ++ d.line.head?.toList ++ (d.put name .gone).pass.line
      have hline : d.line.head?.toList ++ d.line.tail = d.line := by
        cases d.line <;> rfl
      rw [Desk.line_pass, show (d.put name .gone).line = d.line from rfl, List.append_assoc, hline]
      exact h.order hc

end Ledger

end Rollout
