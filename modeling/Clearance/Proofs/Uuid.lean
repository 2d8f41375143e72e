import Clearance.Proofs.Json.Text
import Clearance.Uuid

/-!
# A written identifier reads as itself
-/

namespace Clearance.Uuid

theorem length_hexDigits (count n : Nat) : (hexDigits count n).length = count := by
  induction count generalizing n with
  | zero => rfl
  | succ count ih => rw [hexDigits, List.length_append, ih, List.length_singleton]

/-- The digits give back what of a number they have room for. -/
theorem mapM_hexDigits (count n : Nat) :
    ∃ ds, (hexDigits count n).mapM Json.hexValue? = some ds ∧
      ds.foldl (fun n d => 16 * n + d) 0 = n % Nat.pow 16 count := by
  induction count generalizing n with
  | zero => exact ⟨[], rfl, (Nat.mod_one n).symm⟩
  | succ count ih =>
    obtain ⟨ds, hread, hvalue⟩ := ih (n / 16)
    have hlast : Json.hexValue? (Nat.digitChar (n % 16)) = some (n % 16) :=
      Json.hexValue?_digitChar _ (Nat.mod_lt n (by decide))
    refine ⟨ds ++ [n % 16], ?_, ?_⟩
    · rw [hexDigits, List.mapM_append, hread]
      simp [hlast]
    · have hsplit : n % (Nat.pow 16 count * 16) = 16 * (n / 16 % Nat.pow 16 count) + n % 16 := by
        rw [Nat.mul_comm, Nat.mod_mul, Nat.add_comm]
      rw [List.foldl_append, hvalue]
      exact hsplit.symm

/-- The digits of an id are read as the id. -/
theorem readDigits_hexDigits (u : Uuid) : readDigits (hexDigits 32 u.bits.toNat) = some u := by
  obtain ⟨ds, hread, hvalue⟩ := mapM_hexDigits 32 u.bits.toNat
  have hbits : u.bits.toNat % Nat.pow 16 32 = u.bits.toNat := Nat.mod_eq_of_lt u.bits.isLt
  unfold readDigits
  rw [if_neg (by simp [length_hexDigits]), hread, Option.map_some, hvalue, hbits]
  show some (Uuid.mk (BitVec.ofNat 128 u.bits.toNat)) = some u
  rw [BitVec.ofNat_toNat, BitVec.setWidth_eq]

/-- The hyphens are found where they were put. -/
theorem readHyphenated_groups {a b c d e : List Char} (ha : a.length = 8) (hb : b.length = 4)
    (hc : c.length = 4) (hd : d.length = 4) (he : e.length = 12) :
    readHyphenated (a ++ '-' :: b ++ '-' :: c ++ '-' :: d ++ '-' :: e) =
      readDigits (a ++ b ++ c ++ d ++ e) := by
  unfold readHyphenated
  simp [ha, hb, hc, hd, he, List.drop_append, List.getElem?_append,
    List.drop_eq_nil_of_le]

/-- **A written identifier reads as itself.** -/
theorem read_write (u : Uuid) : read u.write = some u := by
  have hdigits := readDigits_hexDigits u
  have hlength := length_hexDigits 32 u.bits.toNat
  generalize hds : hexDigits 32 u.bits.toNat = ds at hdigits hlength
  have hjoin : ds.take 8 ++ (ds.drop 8).take 4 ++ (ds.drop 12).take 4 ++ (ds.drop 16).take 4 ++
      ds.drop 20 = ds := by
    rw [← List.take_add, ← List.take_add, ← List.take_add, List.take_append_drop]
  have hgroups := @readHyphenated_groups (ds.take 8) ((ds.drop 8).take 4) ((ds.drop 12).take 4)
    ((ds.drop 16).take 4) (ds.drop 20) (by simp [hlength]) (by simp [hlength]) (by simp [hlength])
    (by simp [hlength]) (by simp [hlength])
  unfold read write
  rw [hds, String.toList_ofList, if_neg (by simp [hlength]), if_pos (by simp [hlength]), hgroups,
    hjoin, hdigits]

end Clearance.Uuid
