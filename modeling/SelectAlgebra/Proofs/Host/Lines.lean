import SelectAlgebra.Host.LineEditor

/-!
# Bytes of texts

A text is read back from its bytes, and lines that were written one by one, each with a line feed
behind it, are read back as they were.

Main results:

- Theorem `decodeText_toUTF8`: the bytes of a text are read back as that text.
- Theorem `textLines_lines`: lines that were written one by one are read back.
-/

namespace SelectAlgebra

/-! ## Bytes -/

/-- The bytes of a text encode that text. -/
theorem fromUTF8?_toUTF8 (text : String) : String.fromUTF8? text.toUTF8 = some text := by
  have hvalid : text.toUTF8.IsValidUTF8 := text.isValidUTF8
  rw [String.fromUTF8?, dif_pos hvalid]
  rfl

/-- The bytes of a text are read back as that text. -/
theorem decodeText_toUTF8 (text : String) : decodeText text.toUTF8 = .ok text := by
  rw [decodeText, fromUTF8?_toUTF8]

/-- The bytes from a place on are put behind those that were collected. -/
theorem toList_loop (bytes : ByteArray) (i : Nat) (front : List UInt8) :
    ByteArray.toList.loop bytes i front = front.reverse ++ bytes.data.toList.drop i := by
  fun_induction ByteArray.toList.loop bytes i front with
  | case1 i front h ih =>
    have hi : i < bytes.data.toList.length := by simpa using h
    rw [ih, List.drop_eq_getElem_cons hi, List.reverse_cons, List.append_assoc,
      List.singleton_append]
    congr 2
    simp [ByteArray.get!, getElem!_pos bytes.data i h]
  | case2 i front h =>
    have hi : bytes.data.toList.length ≤ i := by simpa using Nat.not_lt.1 h
    rw [List.drop_eq_nil_of_le hi, List.append_nil]

/-- The bytes of an array, one after the other. -/
theorem toList_eq (bytes : ByteArray) : bytes.toList = bytes.data.toList := by
  rw [ByteArray.toList, toList_loop]
  simp

/-- A line feed is the only character with the byte of a line feed. -/
theorem lineFeed_not_mem_encode {c : Char} (h : c ≠ '\n') : 10 ∉ String.utf8EncodeChar c := by
  have hval : c.val.toNat ≠ 10 := by
    intro hc
    exact h (Char.ext (UInt32.toNat_inj.1 hc))
  have hbyte {n : Nat} (hn : n < 256) (hfeed : n ≠ 10) : ¬ (10 : UInt8) = UInt8.ofNat n := by
    intro h
    have hnat := congrArg UInt8.toNat h
    simp only [UInt8.toNat_ofNat', UInt8.reduceToNat] at hnat
    omega
  rw [String.utf8EncodeChar]
  -- Every byte but that of a lone byte is 128 at least.
  repeat' split
  all_goals
    simp only [List.mem_cons, List.not_mem_nil, or_false, not_or]
    repeat' constructor
    all_goals exact hbyte (by omega) (by omega)

/-! ## Lines -/

/-- The bytes of a text as a list. -/
def bytesOf (text : String) : List UInt8 :=
  text.toUTF8.toList

/-- The bytes of a text are those of its characters. -/
theorem bytesOf_eq (text : String) :
    bytesOf text = text.toList.flatMap String.utf8EncodeChar := by
  rw [bytesOf, toList_eq, String.toUTF8_eq_toByteArray, ← String.utf8Encode_toList,
    List.utf8Encode, List.toList_data_toByteArray]

@[simp]
theorem bytesOf_empty : bytesOf "" = [] := by
  rw [bytesOf_eq]
  rfl

@[simp]
theorem bytesOf_lineFeed : bytesOf "\n" = [10] := by
  rw [bytesOf_eq]
  rfl

/-- The bytes of two texts in a row add up. -/
theorem bytesOf_append (a b : String) : bytesOf (a ++ b) = bytesOf a ++ bytesOf b := by
  simp [bytesOf_eq]

/-- The bytes of a text make up its encoding. -/
theorem mk_bytesOf (text : String) : (⟨(bytesOf text).toArray⟩ : ByteArray) = text.toUTF8 := by
  rw [bytesOf, toList_eq]

/-- A text without a line feed has no byte of one. -/
theorem lineFeed_not_mem_bytesOf {text : String} (h : '\n' ∉ text.toList) :
    10 ∉ bytesOf text := by
  rw [bytesOf_eq, List.mem_flatMap]
  rintro ⟨c, hc, hbyte⟩
  exact lineFeed_not_mem_encode (fun hfeed => h (hfeed ▸ hc)) hbyte

/-- A list is cut behind the first element with the property. -/
theorem cutAfter_append {α : Type} {p : α → Bool} {as bs : List α} {a : α}
    (h : ∀ b ∈ as, p b = false) (ha : p a = true) :
    cutAfter p (as ++ a :: bs) = (as ++ [a]) :: cutAfter p bs := by
  induction as with
  | nil => simp [cutAfter, ha]
  | cons b as ih =>
    rw [List.forall_mem_cons] at h
    simp [cutAfter, h.1, ih h.2]

/-- A line that ends in no carriage return is found again without its line feed. -/
theorem withoutLineEnd_append {line : String} (h : line.toList.getLast? ≠ some '\r') :
    withoutLineEnd (line ++ "\n") = line := by
  have hlist : (line ++ "\n").toList.reverse = '\n' :: line.toList.reverse := by simp
  rw [List.getLast?_eq_head?_reverse] at h
  have hback : String.ofList line.toList.reverse.reverse = line := by simp
  rw [withoutLineEnd, hlist]
  split
  · rename_i cs hr
    rw [List.cons.injEq] at hr
    rw [hr.2] at h
    exact absurd rfl h
  · rename_i cs _ hr
    rw [List.cons.injEq] at hr
    rw [← hr.2, hback]
  · rename_i hnone
    exact absurd rfl (hnone _)

/-- The empty text has no lines. -/
theorem textLines_empty : textLines .empty = [] := by
  rw [textLines, toList_eq]
  rfl

/-- Lines that were written one by one are read back. -/
theorem textLines_lines {lines : List String} (hfeed : ∀ line ∈ lines, '\n' ∉ line.toList)
    (hreturn : ∀ line ∈ lines, line.toList.getLast? ≠ some '\r') :
    textLines (String.join (lines.map (· ++ "\n"))).toUTF8 = lines.map .ok := by
  induction lines with
  | nil =>
    change List.map _ (cutAfter _ (bytesOf _)) = _
    simp [cutAfter]
  | cons line lines ih =>
    rw [List.forall_mem_cons] at hfeed hreturn
    have hbytes : bytesOf (String.join ((line :: lines).map (· ++ "\n"))) =
        bytesOf line ++ 10 :: bytesOf (String.join (lines.map (· ++ "\n"))) := by
      rw [List.map_cons, String.join_cons, bytesOf_append, bytesOf_append, bytesOf_lineFeed,
        List.append_assoc, List.singleton_append]
    have hline : bytesOf line ++ [10] = bytesOf (line ++ "\n") := by
      rw [bytesOf_append, bytesOf_lineFeed]
    have hbefore : ∀ b ∈ bytesOf line, (b == 10) = false := by
      intro b hb
      exact beq_false_of_ne fun h => lineFeed_not_mem_bytesOf hfeed.1 (h ▸ hb)
    change List.map _ (cutAfter _ (bytesOf _)) = _
    rw [hbytes, cutAfter_append hbefore rfl, List.map_cons, hline, mk_bytesOf,
      decodeText_toUTF8, List.map_cons, ← ih hfeed.2 hreturn.2]
    congr 1
    exact congrArg _ (withoutLineEnd_append hreturn.1)

end SelectAlgebra
