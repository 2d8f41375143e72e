import Clearance.Proofs.Json.Distinct
import Clearance.Table.Digest

/-!
# What the name of a table tells apart

A table is named after the bytes of its canonical text. Those bytes say everything that there is to the
entries: which tests they make on which texts, what they answer, how they rank, and in which order they
stand (`canonicalBytes_inj`). No pattern can forge them, whatever characters it holds, because a text
ends in JSON where it was made to end.

So tables of one name have the same entries, unless the digest fails: then two different texts are at
hand whose digests begin with the same digits (`named_apart`).
-/

namespace Clearance

/-- Whether two messages differ although their digests begin with the same digits. -/
def Sha256.Collide (digits : Nat) (message message' : List UInt8) : Prop :=
  message ≠ message' ∧ (hexDigest message).take digits = (hexDigest message').take digits

namespace Text

theorem toList_loop (bytes : ByteArray) (i : Nat) (front : List UInt8) :
    ByteArray.toList.loop bytes i front = front.reverse ++ bytes.data.toList.drop i := by
  fun_induction ByteArray.toList.loop bytes i front with
  | case1 i front hlt ih =>
    have hi : i < bytes.data.toList.length := by simpa using hlt
    have hget : bytes.get! i = bytes.data.toList[i] := getElem!_pos bytes.data i (by simpa using hlt)
    rw [ih, List.drop_eq_getElem_cons hi, hget, List.reverse_cons, List.append_assoc]
    rfl
  | case2 i front hge =>
    have hi : bytes.data.toList.length ≤ i := by simpa using hge
    rw [List.drop_eq_nil_of_le hi, List.append_nil]

/-- Texts are the same if their bytes are. -/
theorem bytes_inj {s s' : String} : s.toUTF8.toList = s'.toUTF8.toList ↔ s = s' := by
  have hlist : ∀ bytes : ByteArray, bytes.toList = bytes.data.toList := fun bytes =>
    (toList_loop bytes 0 []).trans (List.nil_append _)
  rw [hlist, hlist, Array.toList_inj, ← String.toByteArray_inj]
  exact ⟨ByteArray.ext, congrArg ByteArray.data⟩

end Text

/-! ## What stands in the canonical text -/

/-- Effects are told apart by their names. -/
theorem Effect.name_inj {a b : Effect} : a.name = b.name ↔ a = b := by
  cases a <;> cases b <;> decide

/-- Guards are told apart by what is written for them. -/
theorem Guard.toJson_inj {g g' : Guard} : g.toJson = g'.toJson ↔ g = g' := by
  cases g <;> cases g' <;> simp [Guard.toJson]

/-- Entries are told apart by what is written for them. -/
theorem Entry.toJson_inj {e e' : Entry} : e.toJson = e'.toJson ↔ e = e' := by
  obtain ⟨subject, resource, action, effect, priority⟩ := e
  obtain ⟨subject', resource', action', effect', priority'⟩ := e'
  simp [Entry.toJson, Guard.toJson_inj, Effect.name_inj]

theorem Guard.isFractionless_toJson (g : Guard) : g.toJson.all Json.isFractionless = true := by
  cases g <;> rfl

theorem Entry.isFractionless_toJson (e : Entry) : e.toJson.all Json.isFractionless = true := by
  refine Json.all_obj_iff.2 ⟨rfl, ?_⟩
  simp only [List.forall_mem_cons, Guard.isFractionless_toJson, true_and]
  exact ⟨rfl, rfl, List.forall_mem_nil _⟩

namespace Table

variable {t u : Table}

/-- The bytes that a table is named after. -/
def canonicalBytes (t : Table) : List UInt8 := t.canonicalText.toUTF8.toList

theorem id_eq (t : Table) :
    t.id = String.ofList ((Sha256.hexDigest t.canonicalBytes).take idLength) := rfl

/-- Tables are written alike only if their entries are the same. -/
theorem canonicalText_inj : t.canonicalText = u.canonicalText ↔ t.entries = u.entries := by
  -- a table has no fractions in it: all that is not text is a whole number
  have hfractionless : ∀ t : Table,
      (Json.arr (t.entries.map Entry.toJson)).all Json.isFractionless = true := by
    intro t
    refine (Json.all_arr_iff rfl).2 fun j hj => ?_
    obtain ⟨e, -, rfl⟩ := List.mem_map.1 hj
    exact e.isFractionless_toJson
  rw [canonicalText, canonicalText, Json.write_inj (hfractionless t) (hfractionless u), Json.arr.injEq]
  exact List.map_inj_right fun _ _ => Entry.toJson_inj.1

/-- Tables have the same bytes only if their entries are the same. -/
theorem canonicalBytes_inj : t.canonicalBytes = u.canonicalBytes ↔ t.entries = u.entries :=
  Text.bytes_inj.trans canonicalText_inj

/-- Tables share a name if they have the same entries, or if the digest does not tell them apart. -/
theorem id_eq_iff :
    t.id = u.id ↔
      t.entries = u.entries ∨ Sha256.Collide idLength t.canonicalBytes u.canonicalBytes := by
  rw [id_eq, id_eq, String.ofList_inj, ← canonicalBytes_inj, Sha256.Collide]
  constructor
  · intro h
    by_cases hbytes : t.canonicalBytes = u.canonicalBytes
    · exact .inl hbytes
    · exact .inr ⟨hbytes, h⟩
  · intro h
    rcases h with hbytes | ⟨-, hdigests⟩
    · rw [hbytes]
    · exact hdigests

/-- **The name tells tables apart**: for any two policies, the bytes that are hashed are the same if and
only if the tables have the same entries in the same order. So their names are the same for the same
entries, and otherwise only if the digits taken from the two digests collide. -/
theorem named_apart (p q : Policy) :
    ((ofPolicy p).canonicalBytes = (ofPolicy q).canonicalBytes ↔
        (ofPolicy p).entries = (ofPolicy q).entries) ∧
      ((ofPolicy p).id = (ofPolicy q).id ↔
        (ofPolicy p).entries = (ofPolicy q).entries ∨
          Sha256.Collide idLength (ofPolicy p).canonicalBytes (ofPolicy q).canonicalBytes) :=
  ⟨canonicalBytes_inj, id_eq_iff⟩

end Table

end Clearance
