import Mathlib.Tactic.Conv
import Mathlib.Tactic.SplitIfs
import Rollout.Names
/-!
Names in the order of their bytes.  Names are compared letter by letter, and to compare their UTF-8 bytes comes to the
same (`Names.bytes_lt_iff`): a letter with a larger code has larger bytes, whatever follows it (`Names.encode_lt`).

Of two letters with as many bytes, the codes differ in a digit to the base 64 and so the bytes differ there in the same
way; of two others, the one with more bytes has the larger first byte.  It is what lets a sorted list be kept by code
points although the bytes are compared.
-/
namespace Rollout

namespace Names

def bytes (name : String) : List UInt8 := name.toUTF8.data.toList

theorem bytes_eq (name : String) : bytes name = name.toList.flatMap String.utf8EncodeChar := by
  unfold bytes
  conv => lhs; rw [← String.ofList_toList (s := name)]
  rw [String.toUTF8_eq_toByteArray]
  exact congrArg Array.toList List.data_toByteArray

/-- **A larger letter has larger bytes.**  Two letters with the same number of bytes differ in a digit to the base 64;
of two others, the one with more bytes has the larger first byte. -/
theorem encode_lt {c d : Char} (h : c < d) (r s : List UInt8) :
    String.utf8EncodeChar c ++ r < String.utf8EncodeChar d ++ s := by
  have hcd : c.val.toNat < d.val.toNat := h
  have hd : d.val.toNat < 0x110000 := d.valid.elim (fun h => by omega) And.right
  unfold String.utf8EncodeChar
  dsimp only
  split_ifs
  all_goals
    simp only [List.cons_append, List.nil_append, List.cons_lt_cons_iff, UInt8.lt_iff_toNat_lt, ← UInt8.toNat_inj,
      UInt8.toNat_ofNat']
    simp (disch := omega) only [Nat.mod_eq_of_lt]
    omega

theorem flatMap_encode_lt : ∀ {l m : List Char}, l < m →
    l.flatMap String.utf8EncodeChar < m.flatMap String.utf8EncodeChar
  | [], [], h => absurd h (List.not_lt_nil [])
  | [], d :: m, _ => by
    rw [List.flatMap_nil, List.flatMap_cons]
    cases hd : String.utf8EncodeChar d with
    | nil => exact absurd hd String.utf8EncodeChar_ne_nil
    | cons b rest => exact List.nil_lt_cons b _
  | c :: l, [], h => absurd h (List.not_lt_nil _)
  | c :: l, d :: m, h => by
    rw [List.flatMap_cons, List.flatMap_cons]
    rcases List.cons_lt_cons_iff.1 h with hcd | ⟨rfl, hlm⟩
    · exact encode_lt hcd _ _
    · exact List.append_left_lt (flatMap_encode_lt hlm)

theorem bytes_lt {a b : String} (h : a < b) : bytes a < bytes b := by
  rw [bytes_eq, bytes_eq]
  exact flatMap_encode_lt (String.lt_iff.1 h)

/-- **Names are in the order of their bytes.** -/
theorem bytes_lt_iff {a b : String} : bytes a < bytes b ↔ a < b := by
  refine ⟨fun h => Decidable.byContradiction fun hnot => ?_, bytes_lt⟩
  by_cases hab : a = b
  · subst hab
    exact List.lt_irrefl _ h
  · exact List.lt_asymm h (bytes_lt (lt_of_not_lt_of_ne hnot hab))

theorem bytes_le_iff {a b : String} : bytes a ≤ bytes b ↔ a ≤ b := by
  rw [← List.not_lt, bytes_lt_iff, String.not_lt]

end Names

end Rollout
