import Mathlib.Data.List.Basic
import XhrKeywords.Proofs.Outcome
import XhrKeywords.Text.Utf8

/-!
# Reading and writing are inverse

Octets are read as a text exactly when they are the octets of that text. So every text has one
form on a file, and a file whose text does not change need not be written.
-/

namespace XhrKeywords.Utf8

open String (utf8EncodeChar)

/-- An octet that continues a character. -/
def Continues (octet : UInt8) : Prop := 0x80 ≤ octet.toNat ∧ octet.toNat ≤ 0xBF

theorem contains_iff (r : Range) (octet : UInt8) :
    r.contains octet ↔ r.low.toNat ≤ octet.toNat ∧ octet.toNat ≤ r.high.toNat := by
  rw [Range.contains, Bool.and_eq_true, decide_eq_true_iff, decide_eq_true_iff,
    UInt8.le_iff_toNat_le, UInt8.le_iff_toNat_le]

/-- The code of a character made of a number. -/
theorem toNat_ofNat {code : Nat} (h : code.isValidChar) : (Char.ofNat code).val.toNat = code := by
  rw [Char.ofNat, dif_pos h]
  rfl

theorem octet_eq {n : Nat} {a : UInt8} (h : n = a.toNat) : UInt8.ofNat n = a := by
  rw [h, UInt8.ofNat_toNat]

theorem encode_one {a : UInt8} (ha : a.toNat < 0x80) : utf8EncodeChar (.ofNat a.toNat) = [a] := by
  rw [utf8EncodeChar, toNat_ofNat (Or.inl (by omega)), if_pos (by omega), octet_eq rfl]

theorem encode_two {a b : UInt8} (ha : 0xC2 ≤ a.toNat) (ha' : a.toNat < 0xE0) (hb : Continues b) :
    utf8EncodeChar (.ofNat ((a.toNat - 0xC0) * 64 + (b.toNat - 0x80))) = [a, b] := by
  obtain ⟨hb, hb'⟩ := hb
  rw [utf8EncodeChar, toNat_ofNat (Or.inl (by omega)), if_neg (by omega), if_pos (by omega),
    octet_eq (by omega : _ = a.toNat), octet_eq (by omega : _ = b.toNat)]

theorem encode_three {a b c : UInt8} (ha : 0xE0 ≤ a.toNat) (ha' : a.toNat < 0xF0)
    (hb : Continues b) (hc : Continues c) (hlow : a.toNat = 0xE0 → 0xA0 ≤ b.toNat)
    (hhigh : a.toNat = 0xED → b.toNat ≤ 0x9F) :
    utf8EncodeChar
      (.ofNat (((a.toNat - 0xE0) * 64 + (b.toNat - 0x80)) * 64 + (c.toNat - 0x80))) =
        [a, b, c] := by
  obtain ⟨hb, hb'⟩ := hb
  obtain ⟨hc, hc'⟩ := hc
  have hvalid :
      (((a.toNat - 0xE0) * 64 + (b.toNat - 0x80)) * 64 + (c.toNat - 0x80)).isValidChar := by
    rw [Nat.isValidChar]
    omega
  rw [utf8EncodeChar, toNat_ofNat hvalid, if_neg (by omega), if_neg (by omega), if_pos (by omega),
    octet_eq (by omega : _ = a.toNat), octet_eq (by omega : _ = b.toNat),
    octet_eq (by omega : _ = c.toNat)]

theorem encode_four {a b c d : UInt8} (ha : 0xF0 ≤ a.toNat) (ha' : a.toNat < 0xF5)
    (hb : Continues b) (hc : Continues c) (hd : Continues d)
    (hlow : a.toNat = 0xF0 → 0x90 ≤ b.toNat) (hhigh : a.toNat = 0xF4 → b.toNat ≤ 0x8F) :
    utf8EncodeChar
      (.ofNat ((((a.toNat - 0xF0) * 64 + (b.toNat - 0x80)) * 64 + (c.toNat - 0x80)) * 64 +
        (d.toNat - 0x80))) = [a, b, c, d] := by
  obtain ⟨hb, hb'⟩ := hb
  obtain ⟨hc, hc'⟩ := hc
  obtain ⟨hd, hd'⟩ := hd
  have hvalid : ((((a.toNat - 0xF0) * 64 + (b.toNat - 0x80)) * 64 + (c.toNat - 0x80)) * 64 +
      (d.toNat - 0x80)).isValidChar := by
    rw [Nat.isValidChar]
    omega
  rw [utf8EncodeChar, toNat_ofNat hvalid, if_neg (by omega), if_neg (by omega),
    if_neg (by omega), octet_eq (by omega : _ = a.toNat), octet_eq (by omega : _ = b.toNat),
    octet_eq (by omega : _ = c.toNat), octet_eq (by omega : _ = d.toNat)]

theorem lead?_one {a : UInt8} (ha : a.toNat < 0x80) : lead? a = some ⟨a.toNat, [], a, 1⟩ := by
  rw [lead?, if_pos ha]

theorem lead?_two {a : UInt8} (ha : 0xC2 ≤ a.toNat) (ha' : a.toNat < 0xE0) :
    lead? a = some ⟨a.toNat - 0xC0, [tail], a, 1⟩ := by
  rw [lead?, if_neg (by omega), if_neg (by omega), if_pos ha']

/-- The second of three octets may not make the character too short, nor half a character. -/
theorem lead?_three {a : UInt8} (ha : 0xE0 ≤ a.toNat) (ha' : a.toNat < 0xF0) :
    ∃ range, lead? a = some ⟨a.toNat - 0xE0, [range, tail], a, 1⟩ ∧ ∀ b, range.contains b ↔
      Continues b ∧ (a.toNat = 0xE0 → 0xA0 ≤ b.toNat) ∧ (a.toNat = 0xED → b.toNat ≤ 0x9F) := by
  rw [lead?, if_neg (by omega), if_neg (by omega), if_neg (by omega)]
  simp only [contains_iff, Continues]
  split
  · exact ⟨_, rfl, fun b => by simp; omega⟩
  · split
    · exact ⟨_, rfl, fun b => by simp; omega⟩
    · exact ⟨_, rfl, fun b => by simp [tail]; omega⟩

/-- The second of four octets may not make the character too short, nor exceed the last one. -/
theorem lead?_four {a : UInt8} (ha : 0xF0 ≤ a.toNat) (ha' : a.toNat < 0xF5) :
    ∃ range, lead? a = some ⟨a.toNat - 0xF0, [range, tail, tail], a, 1⟩ ∧ ∀ b, range.contains b ↔
      Continues b ∧ (a.toNat = 0xF0 → 0x90 ≤ b.toNat) ∧ (a.toNat = 0xF4 → b.toNat ≤ 0x8F) := by
  rw [lead?, if_neg (by omega), if_neg (by omega), if_neg (by omega), if_neg (by omega),
    if_neg (by omega), if_neg (by omega)]
  simp only [contains_iff, Continues]
  split
  · exact ⟨_, rfl, fun b => by simp; omega⟩
  · split
    · exact ⟨_, rfl, fun b => by simp [tail]; omega⟩
    · rw [if_pos (by omega)]
      exact ⟨_, rfl, fun b => by simp; omega⟩

/-- The octets that start a character. -/
theorem starts_of_lead? {a : UInt8} {p : Partial} (h : lead? a = some p) :
    a.toNat < 0x80 ∨ (0xC2 ≤ a.toNat ∧ a.toNat < 0xE0) ∨ (0xE0 ≤ a.toNat ∧ a.toNat < 0xF0) ∨
      (0xF0 ≤ a.toNat ∧ a.toNat < 0xF5) := by
  -- No character starts with an octet between the first two bounds, or from the last one on.
  have hlow : ¬ (0x80 ≤ a.toNat ∧ a.toNat < 0xC2) := by
    rintro ⟨ha, ha'⟩
    rw [lead?, if_neg (by omega), if_pos ha'] at h
    cases h
  have hhigh : ¬ 0xF5 ≤ a.toNat := by
    intro ha
    rw [lead?, if_neg (by omega), if_neg (by omega), if_neg (by omega), if_neg (by omega),
      if_neg (by omega), if_neg (by omega), if_neg (by omega), if_neg (by omega),
      if_neg (by omega)] at h
    cases h
  omega

theorem tail_contains (octet : UInt8) : tail.contains octet ↔ Continues octet :=
  contains_iff tail octet

variable {behind : Nat} {decoded text : List Char} {rest : List UInt8}

section owed

variable {code length : Nat} {first octet : UInt8} {range : Range} {owed : List Range}

/-- An octet in the last range that is owed completes a character. -/
theorem read_last (h : range.contains octet) :
    read behind decoded (some ⟨code, [range], first, length⟩) (octet :: rest) =
      read (behind + 1) (.ofNat (code * 64 + (octet.toNat - 0x80)) :: decoded) none rest := by
  change (if range.contains octet then _ else _) = _
  rw [if_pos h]
  rfl

theorem read_owed {next : Range} (h : range.contains octet) :
    read behind decoded (some ⟨code, range :: next :: owed, first, length⟩) (octet :: rest) =
      read (behind + 1) decoded
        (some ⟨code * 64 + (octet.toNat - 0x80), next :: owed, first, length + 1⟩) rest := by
  change (if range.contains octet then _ else _) = _
  rw [if_pos h]
  rfl

/-- What is owed is there when octets are read. -/
theorem exists_of_read_owed
    (h : read behind decoded (some ⟨code, range :: owed, first, length⟩) rest = .ok text) :
    ∃ octet others, rest = octet :: others ∧ range.contains octet := by
  cases rest with
  | nil => cases h
  | cons octet others =>
    refine ⟨octet, others, rfl, ?_⟩
    by_contra hcontains
    change (if range.contains octet then _ else _) = _ at h
    rw [if_neg hcontains] at h
    cases h

end owed

section first

variable {a b c d : UInt8}

/-- The first octet tells which character begins. -/
theorem read_first (a : UInt8) :
    read behind decoded none (a :: rest) =
      match lead? a with
      | none => .error ⟨.invalidStart, a, behind, 1⟩
      | some p =>
        if p.owed.isEmpty then read (behind + 1) (.ofNat p.code :: decoded) none rest
        else read (behind + 1) decoded (some p) rest :=
  rfl

theorem read_one (ha : a.toNat < 0x80) :
    read behind decoded none (a :: rest) =
      read (behind + 1) (.ofNat a.toNat :: decoded) none rest := by
  rw [read_first, lead?_one ha]
  rfl

theorem read_two (ha : 0xC2 ≤ a.toNat) (ha' : a.toNat < 0xE0) (hb : Continues b) :
    read behind decoded none (a :: b :: rest) =
      read (behind + 2) (.ofNat ((a.toNat - 0xC0) * 64 + (b.toNat - 0x80)) :: decoded) none
        rest := by
  rw [read_first, lead?_two ha ha']
  exact read_last ((tail_contains b).mpr hb)

theorem read_three (ha : 0xE0 ≤ a.toNat) (ha' : a.toNat < 0xF0)
    (hb : Continues b) (hc : Continues c) (hlow : a.toNat = 0xE0 → 0xA0 ≤ b.toNat)
    (hhigh : a.toNat = 0xED → b.toNat ≤ 0x9F) :
    read behind decoded none (a :: b :: c :: rest) =
      read (behind + 3)
        (.ofNat (((a.toNat - 0xE0) * 64 + (b.toNat - 0x80)) * 64 + (c.toNat - 0x80)) :: decoded)
        none rest := by
  obtain ⟨range, hlead, hrange⟩ := lead?_three ha ha'
  rw [read_first, hlead]
  exact (read_owed ((hrange b).mpr ⟨hb, hlow, hhigh⟩)).trans (read_last ((tail_contains c).mpr hc))

theorem read_four (ha : 0xF0 ≤ a.toNat) (ha' : a.toNat < 0xF5)
    (hb : Continues b) (hc : Continues c) (hd : Continues d)
    (hlow : a.toNat = 0xF0 → 0x90 ≤ b.toNat) (hhigh : a.toNat = 0xF4 → b.toNat ≤ 0x8F) :
    read behind decoded none (a :: b :: c :: d :: rest) =
      read (behind + 4)
        (.ofNat ((((a.toNat - 0xF0) * 64 + (b.toNat - 0x80)) * 64 + (c.toNat - 0x80)) * 64 +
          (d.toNat - 0x80)) :: decoded) none rest := by
  obtain ⟨range, hlead, hrange⟩ := lead?_four ha ha'
  rw [read_first, hlead]
  exact (read_owed ((hrange b).mpr ⟨hb, hlow, hhigh⟩)).trans
    ((read_owed ((tail_contains c).mpr hc)).trans (read_last ((tail_contains d).mpr hd)))

end first

/-- A character is read from its octets. -/
theorem read_encodeChar (c : Char) :
    read behind decoded none (utf8EncodeChar c ++ rest) =
      read (behind + (utf8EncodeChar c).length) (c :: decoded) none rest := by
  have hmade : ∀ code, code = c.val.toNat → Char.ofNat code = c := by
    rintro _ rfl
    exact c.ofNat_toNat
  have hoctet : ∀ n, n < 256 → (UInt8.ofNat n).toNat = n := fun n hn => UInt8.toNat_ofNat_of_lt' hn
  have hvalid : c.val.toNat.isValidChar := c.valid
  rw [Nat.isValidChar] at hvalid
  rw [utf8EncodeChar]
  generalize c.val.toNat = v at hmade hvalid ⊢
  split
  · have ha := hoctet v (by omega)
    exact (read_one (by omega)).trans (by rw [hmade _ (by omega)]; rfl)
  · split
    · have ha := hoctet (v / 64 % 32 + 192) (by omega)
      have hb := hoctet (v % 64 + 128) (by omega)
      refine (read_two (by omega) (by omega) ⟨by omega, by omega⟩).trans ?_
      rw [hmade _ (by omega)]
      rfl
    · split
      · have ha := hoctet (v / 4096 % 16 + 224) (by omega)
        have hb := hoctet (v / 64 % 64 + 128) (by omega)
        have hc := hoctet (v % 64 + 128) (by omega)
        refine (read_three (by omega) (by omega) ⟨by omega, by omega⟩ ⟨by omega, by omega⟩
          (by omega) (by omega)).trans ?_
        rw [hmade _ (by omega)]
        rfl
      · have ha := hoctet (v / 262144 % 8 + 240) (by omega)
        have hb := hoctet (v / 4096 % 64 + 128) (by omega)
        have hc := hoctet (v / 64 % 64 + 128) (by omega)
        have hd := hoctet (v % 64 + 128) (by omega)
        refine (read_four (by omega) (by omega) ⟨by omega, by omega⟩ ⟨by omega, by omega⟩
          ⟨by omega, by omega⟩ (by omega) (by omega)).trans ?_
        rw [hmade _ (by omega)]
        rfl

/-- Octets that are read start with those of a character. -/
theorem exists_of_read {octets : List UInt8} (h : read behind decoded none octets = .ok text) :
    (octets = [] ∧ text = decoded.reverse) ∨
      ∃ c rest, octets = utf8EncodeChar c ++ rest := by
  cases octets with
  | nil => exact Or.inl ⟨rfl, (Except.ok.inj h).symm⟩
  | cons a rest =>
    refine Or.inr ?_
    have hlead : ∃ p, lead? a = some p := by
      rw [← Option.isSome_iff_exists]
      by_contra hnone
      rw [Option.not_isSome_iff_eq_none] at hnone
      rw [read_first, hnone] at h
      cases h
    obtain ⟨p, hp⟩ := hlead
    -- The first octet tells how many others it is owed, and each of them has to be there.
    rcases starts_of_lead? hp with ha | ⟨ha, ha'⟩ | ⟨ha, ha'⟩ | ⟨ha, ha'⟩
    · exact ⟨_, rest, by rw [encode_one ha]; rfl⟩
    · rw [read_first, lead?_two ha ha'] at h
      obtain ⟨b, rest, rfl, hb⟩ := exists_of_read_owed h
      rw [tail_contains] at hb
      exact ⟨_, rest, by rw [encode_two ha ha' hb]; rfl⟩
    · obtain ⟨range, hlead, hrange⟩ := lead?_three ha ha'
      rw [read_first, hlead] at h
      obtain ⟨b, rest, rfl, hb⟩ := exists_of_read_owed h
      change read _ _ (some _) _ = _ at h
      rw [read_owed hb] at h
      obtain ⟨c, rest, rfl, hc⟩ := exists_of_read_owed h
      rw [hrange] at hb
      rw [tail_contains] at hc
      exact ⟨_, rest, by rw [encode_three ha ha' hb.1 hc hb.2.1 hb.2.2]; rfl⟩
    · obtain ⟨range, hlead, hrange⟩ := lead?_four ha ha'
      rw [read_first, hlead] at h
      obtain ⟨b, rest, rfl, hb⟩ := exists_of_read_owed h
      change read _ _ (some _) _ = _ at h
      rw [read_owed hb] at h
      obtain ⟨c, rest, rfl, hc⟩ := exists_of_read_owed h
      rw [read_owed hc] at h
      obtain ⟨d, rest, rfl, hd⟩ := exists_of_read_owed h
      rw [hrange] at hb
      rw [tail_contains] at hc hd
      exact ⟨_, rest, by rw [encode_four ha ha' hb.1 hc hd hb.2.1 hb.2.2]; rfl⟩

/-- The octets of characters are read as these. -/
theorem read_octets (behind : Nat) (decoded chars : List Char) :
    read behind decoded none (chars.flatMap utf8EncodeChar) = .ok (decoded.reverse ++ chars) := by
  induction chars generalizing behind decoded with
  | nil => rw [List.append_nil]; rfl
  | cons c others ih =>
    rw [List.flatMap_cons, read_encodeChar, ih, List.reverse_cons, List.append_assoc]
    rfl

/-- Octets that are read are those of the characters that they are read as. -/
theorem octets_of_read {behind : Nat} {decoded text : List Char} {octets : List UInt8}
    (h : read behind decoded none octets = .ok text) :
    ∃ chars, text = decoded.reverse ++ chars ∧ octets = chars.flatMap utf8EncodeChar := by
  induction hlength : octets.length using Nat.strongRecOn
    generalizing octets behind decoded with
  | _ n ih =>
    rcases exists_of_read h with ⟨rfl, rfl⟩ | ⟨c, rest, rfl⟩
    · exact ⟨[], (List.append_nil _).symm, rfl⟩
    · rw [read_encodeChar] at h
      have hshorter : rest.length < n := by
        have := List.length_pos_iff.mpr (String.utf8EncodeChar_ne_nil (c := c))
        rw [List.length_append] at hlength
        omega
      obtain ⟨chars, rfl, rfl⟩ := ih rest.length hshorter h rfl
      exact ⟨c :: chars, by simp, rfl⟩

/-- The octets of an array behind a place, as the loop over them collects them. -/
theorem loop_eq (octets : ByteArray) (i : Nat) (collected : List UInt8) :
    ByteArray.toList.loop octets i collected =
      collected.reverse ++ octets.data.toList.drop i := by
  induction i, collected using ByteArray.toList.loop.induct octets with
  | case1 i collected h ih =>
    have hlength : i < octets.data.toList.length := h
    have hget : octets.get! i = octets.data.toList[i] := getElem!_pos octets.data i h
    rw [ByteArray.toList.loop, if_pos h, ih, List.drop_eq_getElem_cons hlength, hget]
    simp
  | case2 i collected h =>
    have hlength : octets.data.toList.length ≤ i := Nat.not_lt.mp h
    rw [ByteArray.toList.loop, if_neg h, List.drop_eq_nil_of_le hlength, List.append_nil]

theorem encode_eq (text : String) : encode text = text.toList.flatMap utf8EncodeChar := by
  rw [encode, String.toUTF8, ByteArray.toList, loop_eq, ← String.utf8Encode_toList,
    List.utf8Encode, List.toList_data_toByteArray]
  rfl

/-- Octets are read as a text exactly when they are what the text is written as. -/
theorem decode_eq_ok_iff {octets : List UInt8} {text : String} :
    decode octets = .ok text ↔ octets = encode text := by
  rw [encode_eq]
  constructor
  · intro h
    obtain ⟨chars, hread, heq⟩ := bind_eq_ok_iff.mp h
    obtain ⟨_, rfl, rfl⟩ := octets_of_read hread
    cases heq
    rw [String.toList_ofList]
  · rintro rfl
    rw [decode, read_octets]
    simp [bind, Except.bind, pure, Except.pure]

end XhrKeywords.Utf8
