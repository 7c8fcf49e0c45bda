import IntervalIndex.Records.Stream
import Mathlib.Data.List.Basic

namespace IntervalIndex

namespace Text

def encode (cs : List Char) : List UInt8 := cs.flatMap String.utf8EncodeChar

@[simp] theorem encode_nil : encode [] = [] := rfl

@[simp] theorem encode_cons (c : Char) (cs : List Char) :
    encode (c :: cs) = String.utf8EncodeChar c ++ encode cs :=
  List.flatMap_cons

@[simp] theorem encode_append (cs ds : List Char) : encode (cs ++ ds) = encode cs ++ encode ds :=
  List.flatMap_append

theorem encode_eq_nil_iff {cs : List Char} : encode cs = [] ↔ cs = [] := by
  cases cs with
  | nil => simp
  | cons c cs => simp [String.utf8EncodeChar_ne_nil]

theorem utf8_toList (text : String) : text.toUTF8.data.toList = encode text.toList := by
  rw [String.toUTF8_eq_toByteArray, ← String.utf8Encode_toList, List.utf8Encode,
    List.toList_data_toByteArray, encode]

theorem toNat_eq_of_mem_utf8EncodeChar {c : Char} {b : UInt8} (hb : b.toNat < 128)
    (h : b ∈ String.utf8EncodeChar c) : c.toNat = b.toNat := by
  have hc : c.val.toNat = c.toNat := rfl
  simp only [String.utf8EncodeChar, hc] at h
  split at h
  case isTrue hsmall =>
    rw [List.mem_singleton.mp h, UInt8.toNat_ofNat']
    omega
  case isFalse hlarge =>
    -- every byte of a longer encoding has its top bit set
    exfalso
    split_ifs at h <;>
    · simp only [List.mem_cons, List.not_mem_nil, or_false] at h
      casesm* _ ∨ _ <;> subst h <;> rw [UInt8.toNat_ofNat'] at hb <;> omega

theorem mem_of_mem_encode {b : UInt8} (hb : b.toNat < 128) {c : Char} (hc : c.toNat = b.toNat)
    {cs : List Char} (h : b ∈ encode cs) : c ∈ cs := by
  obtain ⟨d, hd, hmem⟩ := List.mem_flatMap.mp h
  have heq : c = d := Char.toNat_inj.mp (hc.trans (toNat_eq_of_mem_utf8EncodeChar hb hmem).symm)
  rwa [heq]

end Text

namespace Records.Stream

open Text (encode)

theorem splitLines_of_not_mem {line : List UInt8} (h : 10 ∉ line) : splitLines line = ([], line) := by
  induction line with
  | nil => rfl
  | cons b line ih =>
    obtain ⟨hb, hline⟩ := not_or.mp (mt List.mem_cons.mpr h)
    rw [splitLines, ih hline]
    simp only [if_neg (Ne.symm hb)]

theorem splitLines_append {line : List UInt8} (h : 10 ∉ line) (rest : List UInt8) :
    splitLines (line ++ 10 :: rest) = (line :: (splitLines rest).1, (splitLines rest).2) := by
  induction line with
  | nil => simp [splitLines]
  | cons b line ih =>
    obtain ⟨hb, hline⟩ := not_or.mp (mt List.mem_cons.mpr h)
    rw [List.cons_append, splitLines, ih hline]
    simp only [if_neg (Ne.symm hb)]

theorem decode_encode (cs : List Char) : decode (encode cs) = .ok (String.ofList cs) := by
  have hbytes : (⟨(encode cs).toArray⟩ : ByteArray) = (String.ofList cs).toByteArray := by
    apply ByteArray.ext
    simp [encode, List.utf8Encode]
  rw [decode, hbytes, String.fromUTF8?, dif_pos (String.ofList cs).isValidUTF8]
  rfl

theorem dropCarriageReturn_encode (cs : List Char) :
    ∃ kept ends, cs = kept ++ ends ∧ (∀ c ∈ ends, c = '\r') ∧
      dropCarriageReturn (encode cs) = encode kept := by
  by_cases hlast : (encode cs).getLast? = some 13
  · obtain rfl | ⟨kept, c, rfl⟩ := cs.eq_nil_or_concat'
    · simp at hlast
    · have hc : c = '\r' := by
        rw [Text.encode_append, List.getLast?_append_of_ne_nil _ (by simp)] at hlast
        have hmem := List.mem_of_getLast? hlast
        simp only [Text.encode_cons, Text.encode_nil, List.append_nil] at hmem
        exact Char.toNat_inj.mp (Text.toNat_eq_of_mem_utf8EncodeChar (by decide) hmem)
      subst hc
      refine ⟨kept, ['\r'], rfl, by simp, ?_⟩
      rw [dropCarriageReturn, if_pos hlast, Text.encode_append]
      exact List.dropLast_concat
  · exact ⟨cs, [], by simp, by simp, if_neg hlast⟩

theorem not_mem_encode {cs : List Char} (h : '\n' ∉ cs) : 10 ∉ encode cs :=
  mt (Text.mem_of_mem_encode (by decide) rfl) h

theorem lastLine_of_ne_nil {rest : List UInt8} (h : rest ≠ []) :
    lastLine none rest = [decode rest] := by
  cases rest with
  | nil => exact absurd rfl h
  | cons b rest => rfl

theorem lines_of_not_mem {cs : List Char} (h : '\n' ∉ cs) (hne : cs ≠ []) :
    (ofBytes (encode cs)).lines = [.ok (String.ofList cs)] := by
  have hbytes : encode cs ≠ [] := mt Text.encode_eq_nil_iff.mp hne
  simp only [lines, ofBytes, splitLines_of_not_mem (not_mem_encode h), List.map_nil,
    List.nil_append]
  rw [lastLine_of_ne_nil hbytes, decode_encode]

theorem lines_append {cs : List Char} (h : '\n' ∉ cs) (rest : List Char) :
    (ofBytes (encode (cs ++ '\n' :: rest))).lines =
      decode (dropCarriageReturn (encode cs)) :: (ofBytes (encode rest)).lines := by
  have hbytes : encode (cs ++ '\n' :: rest) = encode cs ++ 10 :: encode rest := by
    rw [Text.encode_append, Text.encode_cons]
    rfl
  simp only [lines, ofBytes, hbytes, splitLines_append (not_mem_encode h)]
  rfl

end Records.Stream

end IntervalIndex
