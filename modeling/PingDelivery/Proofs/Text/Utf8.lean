import PingDelivery.Bytes

/-! # Text as bytes

Text written as UTF-8 is read back by the strict reading, and its bytes are at most four times its
characters. Both come down to the byte array behind a text being its list of bytes. -/

namespace PingDelivery

namespace Bytes

theorem toList_loop (a : ByteArray) (i : Nat) (r : Bytes) :
    ByteArray.toList.loop a i r = r.reverse ++ a.data.toList.drop i := by
  fun_induction ByteArray.toList.loop a i r with
  | case1 i r h ih =>
    have hi : i < a.data.toList.length := by simpa using h
    have hget : a.get! i = a.data.toList[i] := by
      simp [ByteArray.get!, getElem!_pos, h]
    rw [ih, List.reverse_cons, List.append_assoc, hget, List.singleton_append,
      List.getElem_cons_drop]
  | case2 i r h =>
    rw [List.drop_of_length_le (by simpa using h), List.append_nil]

theorem toList_eq_data (a : ByteArray) : a.toList = a.data.toList := by
  rw [ByteArray.toList, toList_loop]
  simp

/-- **UTF-8 is read back.** -/
@[simp] theorem text?_ofText (s : String) : text? (ofText s) = some s := by
  have h : (⟨(ofText s).toArray⟩ : ByteArray) = s.toUTF8 := by
    rw [ofText, toList_eq_data]
  rw [text?, h, String.toUTF8_eq_toByteArray, String.fromUTF8?, dif_pos s.isValidUTF8]
  rfl

theorem ofText_ofList (l : List Char) :
    ofText (String.ofList l) = l.flatMap String.utf8EncodeChar := by
  rw [ofText, toList_eq_data, String.toUTF8_eq_toByteArray, String.toByteArray_ofList,
    List.utf8Encode, List.toList_data_toByteArray]

/-- A character takes four bytes at most. -/
theorem length_ofText_le (l : List Char) : (ofText (String.ofList l)).length ≤ 4 * l.length := by
  rw [ofText_ofList]
  induction l with
  | nil => exact Nat.le_refl 0
  | cons c l ih =>
    have := c.utf8Size_le_four
    rw [List.flatMap_cons, List.length_append, String.length_utf8EncodeChar, List.length_cons]
    omega

/-- What reads as a text is that text's bytes. -/
theorem ofText_of_text? {b : Bytes} {t : String} (h : text? b = some t) : ofText t = b := by
  rw [text?, String.fromUTF8?] at h
  split at h
  · cases h
    rw [ofText, toList_eq_data, String.toUTF8_eq_toByteArray]
    rfl
  · cases h

end Bytes

end PingDelivery
