import Marshal.Bytes

namespace Marshal.Bytes

theorem toList_loop (bytes : ByteArray) (i : Nat) (done : List UInt8) :
    ByteArray.toList.loop bytes i done = done.reverse ++ bytes.data.toList.drop i := by
  induction h : bytes.size - i generalizing i done with
  | zero =>
    have past : bytes.data.toList.length ≤ i := by simpa using Nat.sub_eq_zero_iff_le.1 h
    rw [ByteArray.toList.loop, if_neg (by omega), List.drop_of_length_le past, List.append_nil]
  | succ rest ih =>
    have bound : i < bytes.size := by omega
    have inner : i < bytes.data.toList.length := by simpa using bound
    rw [ByteArray.toList.loop, if_pos bound, ih (i + 1) _ (by omega),
      List.drop_eq_getElem_cons inner]
    simp [ByteArray.get!, getElem!_pos, bound]

theorem toList_eq (bytes : ByteArray) : bytes.toList = bytes.data.toList :=
  toList_loop bytes 0 []

theorem getElem?_eq (bytes : ByteArray) (i : Nat) : bytes[i]? = bytes.data.toList[i]? := by
  rw [Array.getElem?_toList]
  by_cases bound : i < bytes.size
  · rw [getElem?_pos bytes i bound, getElem?_pos bytes.data i bound]
    rfl
  · rw [getElem?_neg bytes i bound, getElem?_neg bytes.data i bound]

@[simp]
theorem toList_data_ofList (l : List UInt8) : (ofList l).data.toList = l := rfl

theorem ofList_append (l l' : List UInt8) : ofList (l ++ l') = ofList l ++ ofList l' := by
  apply ByteArray.ext
  rw [ByteArray.data_append]
  simp [ofList]

/-- These bytes stand in a source from a position on. -/
def At (src : ByteArray) (pos : Nat) (l : List UInt8) : Prop := l <+: src.data.toList.drop pos

variable {src : ByteArray} {pos : Nat} {l l' : List UInt8}

theorem At.left (h : At src pos (l ++ l')) : At src pos l :=
  (List.prefix_append l l').trans h

theorem At.right (h : At src pos (l ++ l')) : At src (pos + l.length) l' := by
  obtain ⟨rest, same⟩ := h
  refine ⟨rest, ?_⟩
  rw [← List.drop_drop, ← same, List.append_assoc, List.drop_left]

theorem At.tail {b : UInt8} (h : At src pos (b :: l)) : At src (pos + 1) l :=
  At.right (l := [b]) h

theorem At.getElem? (h : At src pos l) {i : Nat} (bound : i < l.length) :
    src[pos + i]? = l[i]? := by
  obtain ⟨rest, same⟩ := h
  rw [getElem?_eq, ← List.getElem?_drop, ← same, List.getElem?_append_left bound]

theorem At.head {b : UInt8} (h : At src pos (b :: l)) : src[pos]? = some b :=
  h.getElem? (i := 0) (by simp)

theorem At.le (h : At src pos l) : l = [] ∨ pos + l.length ≤ src.size := by
  have := h.length_le
  simp at this
  rcases l with _ | ⟨b, l⟩
  · exact .inl rfl
  · right
    simp at *
    omega

theorem At.slice (h : At src pos l) : Bytes.slice src pos l.length = ofList l := by
  obtain ⟨rest, same⟩ := h
  apply ByteArray.ext
  apply Array.toList_inj.1
  rw [Bytes.slice, ByteArray.data_extract, Array.toList_extract, List.extract_eq_take_drop, ← same]
  simp

end Marshal.Bytes
