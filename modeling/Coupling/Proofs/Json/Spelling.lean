/-
How strings and numbers are spelled.

The octets of a written string are read as one token that has the string's text,
whatever it holds: a character stands for itself, in one to four octets, or for
an escape. The octets of a written integer are read as that integer if it fits
64 bits and what follows cannot be taken for more of it.
-/
import Coupling.Json.Token

namespace Coupling.Json

/-! ## Octets of a text -/

/-- The octets of a text. -/
def octets (s : String) : List UInt8 := s.toUTF8.toList

theorem toList_loop (bs : ByteArray) (i : Nat) (r : List UInt8) :
    ByteArray.toList.loop bs i r = r.reverse ++ bs.data.toList.drop i := by
  fun_induction ByteArray.toList.loop bs i r with
  | case1 i r hi ih =>
    have hi' : i < bs.data.toList.length := by simpa using hi
    rw [ih, List.drop_eq_getElem_cons hi']
    simp [ByteArray.get!, hi]
  | case2 i r hi =>
    rw [List.drop_eq_nil_of_le (by simpa using hi), List.append_nil]

theorem toList_eq_data (bs : ByteArray) : bs.toList = bs.data.toList := by
  rw [ByteArray.toList, toList_loop]
  rfl

theorem octets_ofList (cs : List Char) : octets (String.ofList cs) = cs.flatMap String.utf8EncodeChar := by
  rw [octets, toList_eq_data, String.toUTF8_eq_toByteArray, String.toByteArray_ofList, List.utf8Encode,
    List.toList_data_toByteArray]

theorem octets_eq (s : String) : octets s = s.toList.flatMap String.utf8EncodeChar := by
  rw [← octets_ofList, String.ofList_toList]

theorem octets_append (s t : String) : octets (s ++ t) = octets s ++ octets t := by
  simp only [octets_eq, String.toList_append, List.flatMap_append]

/-- The octets of a text are text. -/
theorem fromUTF8?_octets (s : String) : String.fromUTF8? ⟨(octets s).toArray⟩ = some s := by
  have hbytes : (⟨(octets s).toArray⟩ : ByteArray) = s.toByteArray := by
    rw [octets, toList_eq_data, String.toUTF8_eq_toByteArray, Array.toArray_toList]
  simp [String.fromUTF8?, String.fromUTF8, hbytes, s.isValidUTF8]

/-! ## Octets of a character -/

open Token (octet)

theorem utf8EncodeChar_ascii {c : Char} (hc : c.toNat < 128) : String.utf8EncodeChar c = [octet c] := by
  have hval : c.val.toNat ≤ 127 := Nat.le_of_lt_succ hc
  rw [String.utf8EncodeChar, if_pos hval]
  rfl

theorem octets_ascii {cs : List Char} (hcs : cs.all (·.toNat < 128)) :
    octets (String.ofList cs) = cs.map octet := by
  rw [octets_ofList]
  induction cs with
  | nil => rfl
  | cons c cs ih =>
    rw [List.all_cons, Bool.and_eq_true, decide_eq_true_eq] at hcs
    rw [List.flatMap_cons, utf8EncodeChar_ascii hcs.1, ih hcs.2, List.map_cons, List.singleton_append]

theorem utf8EncodeChar_high {c : Char} (hc : 128 ≤ c.toNat) : ∀ b ∈ String.utf8EncodeChar c, 128 ≤ b.toNat := by
  have hval : ¬ c.val.toNat ≤ 127 := Nat.not_le.2 hc
  intro b hb
  simp only [String.utf8EncodeChar, hval, if_false] at hb
  split at hb
  · simp only [List.mem_cons, List.not_mem_nil, or_false] at hb
    rcases hb with rfl | rfl <;> simp only [UInt8.toNat_ofNat'] <;> omega
  · split at hb
    · simp only [List.mem_cons, List.not_mem_nil, or_false] at hb
      rcases hb with rfl | rfl | rfl <;> simp only [UInt8.toNat_ofNat'] <;> omega
    · simp only [List.mem_cons, List.not_mem_nil, or_false] at hb
      rcases hb with rfl | rfl | rfl | rfl <;> simp only [UInt8.toNat_ofNat'] <;> omega

namespace Token

/-! ## Strings -/

/-- The pieces have the octets `os`. -/
def Spells (ps : List Piece) (os : List UInt8) : Prop :=
  ∀ acc qs, textOctets? acc (ps ++ qs) = textOctets? (os.reverse ++ acc) qs

theorem Spells.append {ps qs : List Piece} {os rs : List UInt8} (h : Spells ps os) (h' : Spells qs rs) :
    Spells (ps ++ qs) (os ++ rs) := by
  intro acc xs
  rw [List.append_assoc, h, h', List.reverse_append, List.append_assoc]

theorem spells_octets (os : List UInt8) : Spells (os.map .octet) os := by
  induction os with
  | nil =>
    intro acc qs
    rfl
  | cons o os ih =>
    intro acc qs
    rw [List.map_cons, List.cons_append, textOctets?, ih, List.reverse_cons, List.append_assoc]
    rfl

/-- An escaped code unit that is no surrogate stands for its character. -/
theorem spells_unit {c : Char} (hc : c.toNat < 0xD800) : Spells [.unit c.toNat] (String.utf8EncodeChar c) := by
  have htrailing : isTrailingSurrogate c.toNat = false := by
    simp only [isTrailingSurrogate, Bool.and_eq_false_iff, decide_eq_false_iff_not]
    omega
  have hleading : isLeadingSurrogate c.toNat = false := by
    simp only [isLeadingSurrogate, Bool.and_eq_false_iff, decide_eq_false_iff_not]
    omega
  have hutf8 : utf8 c.toNat = String.utf8EncodeChar c := by
    rw [utf8, Char.ofNat_toNat, ← octets, octets_eq]
    simp
  intro acc qs
  rw [List.singleton_append, textOctets?.eq_def]
  simp only [htrailing, hleading, hutf8, Bool.false_eq_true, if_false]

theorem takeString_quote (acc : List Piece) (bs : List UInt8) :
    takeString acc (octet '"' :: bs) = some (acc.reverse, bs) := by
  rw [takeString.eq_def]
  simp only [if_true]

/-- Octets that are neither marks nor controls are taken as they stand. -/
theorem takeString_octets {os : List UInt8} (hos : ∀ o ∈ os, o ≠ octet '"' ∧ o ≠ octet '\\' ∧ ¬ o < 32)
    (acc : List Piece) (bs : List UInt8) :
    takeString acc (os ++ bs) = takeString ((os.map Piece.octet).reverse ++ acc) bs := by
  induction os generalizing acc with
  | nil => rfl
  | cons o os ih =>
    obtain ⟨⟨hquote, hbackslash, hcontrol⟩, hos⟩ := List.forall_mem_cons.1 hos
    rw [List.cons_append, takeString.eq_def]
    simp only [if_neg hquote, if_neg hbackslash, if_neg hcontrol]
    rw [ih hos, List.map_cons, List.reverse_cons, List.append_assoc]
    rfl

theorem takeString_shortEscape {e o : UInt8} (hu : e ≠ octet 'u') (he : shortEscape? e = some o)
    (acc : List Piece) (bs : List UInt8) :
    takeString acc (octet '\\' :: e :: bs) = takeString (.octet o :: acc) bs := by
  rw [takeString.eq_def]
  simp only [if_neg (show octet '\\' ≠ octet '"' by decide), if_true, if_neg hu, he]

theorem hexDigit?_digitChar : ∀ n < 16, hexDigit? (octet (Nat.digitChar n)) = some n := by decide

theorem takeString_unit {n : Nat} (hn : n < 256) (acc : List Piece) (bs : List UInt8) :
    takeString acc (octet '\\' :: octet 'u' :: octet '0' :: octet '0' :: octet (Nat.digitChar (n / 16)) ::
      octet (Nat.digitChar (n % 16)) :: bs) = takeString (.unit n :: acc) bs := by
  have hzero : hexDigit? (octet '0') = some 0 := by decide
  rw [takeString.eq_def]
  simp only [if_neg (show octet '\\' ≠ octet '"' by decide), if_true, hzero,
    hexDigit?_digitChar (n / 16) (by omega), hexDigit?_digitChar (n % 16) (by omega)]
  congr 3
  omega

/-- The forms a character is written in: an escape of one character, its code, or itself. -/
theorem escape_cases (c : Char) :
    (∃ e, escape c = ['\\', e] ∧ c.toNat < 128 ∧ e.toNat < 128 ∧ octet e ≠ octet 'u' ∧
      shortEscape? (octet e) = some (octet c)) ∨
    (escape c = ['\\', 'u', '0', '0', Nat.digitChar (c.toNat / 16), Nat.digitChar (c.toNat % 16)] ∧
      c.toNat < 32) ∨
    (escape c = [c] ∧ c ≠ '"' ∧ c ≠ '\\' ∧ 32 ≤ c.toNat) := by
  by_cases hshort : c = '"' ∨ c = '\\' ∨ c = '\n' ∨ c = '\r' ∨ c = '\t' ∨ c = '\x08' ∨ c = '\x0c'
  · rcases hshort with rfl | rfl | rfl | rfl | rfl | rfl | rfl
    all_goals exact .inl ⟨_, rfl, by decide, by decide, by decide, by decide⟩
  · simp only [not_or] at hshort
    obtain ⟨hquote, hbackslash, hn, hr, ht, hb, hf⟩ := hshort
    simp only [escape, hquote, hbackslash, hn, hr, ht, hb, hf, if_false]
    by_cases hcontrol : c.toNat < 32
    · exact .inr (.inl ⟨if_pos hcontrol, hcontrol⟩)
    · exact .inr (.inr ⟨if_neg hcontrol, hquote, hbackslash, Nat.le_of_not_lt hcontrol⟩)

theorem utf8EncodeChar_digitChar {n : Nat} (hn : n < 16) :
    String.utf8EncodeChar (Nat.digitChar n) = [octet (Nat.digitChar n)] := by
  have hascii : ∀ n < 16, (Nat.digitChar n).toNat < 128 := by decide
  exact utf8EncodeChar_ascii (hascii n hn)

/-- A character that is written as it stands has no mark or control among its octets. -/
theorem utf8EncodeChar_unmarked {c : Char} (hquote : c ≠ '"') (hbackslash : c ≠ '\\') (hcontrol : 32 ≤ c.toNat) :
    ∀ o ∈ String.utf8EncodeChar c, o ≠ octet '"' ∧ o ≠ octet '\\' ∧ ¬ o < 32 := by
  intro o ho
  by_cases hc : c.toNat < 128
  · rw [utf8EncodeChar_ascii hc, List.mem_singleton] at ho
    have hval : o.toNat = c.toNat := by
      rw [ho, octet, Nat.toUInt8, UInt8.toNat_ofNat']
      omega
    refine ⟨fun h => hquote ?_, fun h => hbackslash ?_, ?_⟩
    · exact Char.toNat_inj.1 (by rw [← hval, h]; rfl)
    · exact Char.toNat_inj.1 (by rw [← hval, h]; rfl)
    · rw [UInt8.lt_iff_toNat_lt]
      exact Nat.not_lt.2 (hval ▸ hcontrol)
  · have hhigh := utf8EncodeChar_high (Nat.le_of_not_lt hc) o ho
    refine ⟨?_, ?_, ?_⟩
    · rintro rfl
      exact absurd hhigh (by decide)
    · rintro rfl
      exact absurd hhigh (by decide)
    · rw [UInt8.lt_iff_toNat_lt]
      exact Nat.not_lt.2 (Nat.le_trans (by decide) hhigh)

/-- **A written character is read as pieces that have its octets.** -/
theorem takeString_escape (c : Char) : ∃ ps, Spells ps (String.utf8EncodeChar c) ∧ ∀ acc bs,
    takeString acc ((escape c).flatMap String.utf8EncodeChar ++ bs) = takeString (ps.reverse ++ acc) bs := by
  have hmark : String.utf8EncodeChar '\\' = [octet '\\'] := utf8EncodeChar_ascii (by decide)
  rcases escape_cases c with ⟨e, hescape, hc, he, hu, hshort⟩ | ⟨hescape, hc⟩ | ⟨hescape, hquote, hbackslash, hc⟩
  · refine ⟨[.octet (octet c)], ?_, fun acc bs => ?_⟩
    · rw [utf8EncodeChar_ascii hc]
      exact spells_octets [octet c]
    · simp only [hescape, List.flatMap_cons, List.flatMap_nil, hmark, utf8EncodeChar_ascii he]
      exact takeString_shortEscape hu hshort acc bs
  · refine ⟨[.unit c.toNat], spells_unit (by omega), fun acc bs => ?_⟩
    have hu : String.utf8EncodeChar 'u' = [octet 'u'] := utf8EncodeChar_ascii (by decide)
    have hzero : String.utf8EncodeChar '0' = [octet '0'] := utf8EncodeChar_ascii (by decide)
    simp only [hescape, List.flatMap_cons, List.flatMap_nil, hmark, hu, hzero,
      utf8EncodeChar_digitChar (show c.toNat / 16 < 16 by omega),
      utf8EncodeChar_digitChar (show c.toNat % 16 < 16 by omega)]
    exact takeString_unit (by omega) acc bs
  · refine ⟨(String.utf8EncodeChar c).map .octet, spells_octets _, fun acc bs => ?_⟩
    rw [hescape, List.flatMap_singleton]
    exact takeString_octets (utf8EncodeChar_unmarked hquote hbackslash hc) acc bs

theorem takeString_escapes (cs : List Char) : ∃ ps, Spells ps (cs.flatMap String.utf8EncodeChar) ∧ ∀ acc bs,
    takeString acc ((cs.flatMap escape).flatMap String.utf8EncodeChar ++ bs) = takeString (ps.reverse ++ acc) bs := by
  induction cs with
  | nil => exact ⟨[], spells_octets [], fun _ _ => rfl⟩
  | cons c cs ih =>
    obtain ⟨ps, hps, hread⟩ := takeString_escape c
    obtain ⟨qs, hqs, hreads⟩ := ih
    refine ⟨ps ++ qs, ?_, fun acc bs => ?_⟩
    · rw [List.flatMap_cons]
      exact hps.append hqs
    · rw [List.flatMap_cons, List.flatMap_append, List.append_assoc, hread, hreads, List.reverse_append,
        List.append_assoc]

theorem Spells.text?_eq {ps : List Piece} {s : String} (h : Spells ps (octets s)) : text? ps = some s := by
  have hoctets := h [] []
  rw [List.append_nil, List.append_nil, textOctets?] at hoctets
  rw [text?, hoctets, Option.bind_some, List.reverse_reverse, fromUTF8?_octets]

/-! ## Spelled tokens -/

/-- The octets `os` are read as the token `t` in front of `rest`. -/
def Spelled (os : List UInt8) (t : Token) (rest : List UInt8) : Prop :=
  ∃ b bs, os = b :: bs ∧ isBlank b = false ∧ take? b (bs ++ rest) = some (t, rest)

theorem take?_quote (bs : List UInt8) :
    take? (octet '"') bs = (takeString [] bs).map fun r => (.string (text? r.1), r.2) := rfl

/-- **A written string is read as its text.** -/
theorem spelled_quoted (s : String) (rest : List UInt8) : Spelled (octets (quoted s)) (.string (some s)) rest := by
  have hquote : octets "\"" = [octet '"'] := by
    rw [octets_eq]
    rfl
  obtain ⟨ps, hps, hread⟩ := takeString_escapes s.toList
  refine ⟨octet '"', (s.toList.flatMap escape).flatMap String.utf8EncodeChar ++ [octet '"'], ?_, by decide, ?_⟩
  · rw [quoted, octets_append, octets_append, hquote, octets_ofList]
    rfl
  · rw [← octets_eq] at hps
    rw [List.append_assoc, take?_quote, hread, List.append_nil, List.singleton_append, takeString_quote,
      List.reverse_reverse, Option.map_some, hps.text?_eq]

/-! ## Integers -/

/-- What follows cannot be taken for more of a number. -/
def Delimited (rest : List UInt8) : Prop :=
  ∀ b ∈ rest.head?, ¬ (48 ≤ b ∧ b ≤ 57) ∧ b ≠ octet '.' ∧ b ≠ octet 'e' ∧ b ≠ octet 'E'

/-- The digits of a number, first one first. -/
def digits (n : Nat) : List Nat := (Nat.toDigits 10 n).map fun c => c.toNat - 48

theorem ofDigits_digits (n : Nat) : Numeral.ofDigits (digits n) = n := by
  rw [Numeral.ofDigits, digits, List.foldl_map]
  exact Nat.ofDigitChars_eq_foldl.symm.trans Nat.ofDigitChars_ten_toDigits

theorem octet_digit {c : Char} (hc : c.isDigit) :
    (48 ≤ octet c ∧ octet c ≤ 57) ∧ (octet c).toNat - 48 = c.toNat - 48 := by
  obtain ⟨hlow, hhigh⟩ : 48 ≤ c.toNat ∧ c.toNat ≤ 57 := Char.isDigit_iff_toNat.1 hc
  have hval : (octet c).toNat = c.toNat := by
    rw [octet, Nat.toUInt8, UInt8.toNat_ofNat']
    omega
  rw [UInt8.le_iff_toNat_le, UInt8.le_iff_toNat_le, hval]
  exact ⟨⟨hlow, hhigh⟩, rfl⟩

theorem takeDigits_append {cs : List Char} (hcs : ∀ c ∈ cs, c.isDigit) {rest : List UInt8}
    (hrest : Delimited rest) :
    takeDigits (cs.map octet ++ rest) = (cs.map fun c => c.toNat - 48, rest) := by
  induction cs with
  | nil =>
    cases rest with
    | nil => rfl
    | cons b bs => rw [List.map_nil, List.nil_append, takeDigits, if_neg (hrest b rfl).1, List.map_nil]
  | cons c cs ih =>
    obtain ⟨hc, hcs⟩ := List.forall_mem_cons.1 hcs
    obtain ⟨hdigit, hval⟩ := octet_digit hc
    rw [List.map_cons, List.cons_append, takeDigits, if_pos hdigit, ih hcs, hval, List.map_cons]

theorem octets_repr (n : Nat) : octets n.repr = (Nat.toDigits 10 n).map octet := by
  rw [Nat.repr_eq_ofList_toDigits]
  refine octets_ascii (List.all_eq_true.2 fun c hc => ?_)
  rw [decide_eq_true_eq]
  have hdigit : 48 ≤ c.toNat ∧ c.toNat ≤ 57 :=
    Char.isDigit_iff_toNat.1 (Nat.isDigit_of_mem_toDigits (by decide) (by decide) hc)
  omega

theorem digits_of_lt {n : Nat} (hn : n < 10) : digits n = [n] := by
  rw [digits, Nat.toDigits_of_lt_base hn, List.map_singleton, Nat.toNat_digitChar_sub_48_of_lt_ten hn]

theorem digits_of_le {n : Nat} (hn : 10 ≤ n) : digits n = digits (n / 10) ++ [n % 10] := by
  rw [digits, Nat.toDigits_of_base_le (by decide) hn, List.map_append, List.map_singleton,
    Nat.toNat_digitChar_sub_48_of_lt_ten (by omega), digits]

/-- The digits of a number begin with zero only if they are that. -/
theorem digits_eq_cons (n : Nat) : ∃ d ds, digits n = d :: ds ∧ (d = 0 → ds = []) := by
  induction n using Nat.strongRecOn with
  | _ n ih =>
    by_cases hn : n < 10
    · exact ⟨n, [], digits_of_lt hn, fun _ => rfl⟩
    · obtain ⟨d, ds, hcons, hzero⟩ := ih (n / 10) (by omega)
      refine ⟨d, ds ++ [n % 10], by rw [digits_of_le (by omega), hcons, List.cons_append], fun hd => ?_⟩
      -- The digits in front would be zero alone, and so would be the number they stand for.
      have hlead := ofDigits_digits (n / 10)
      rw [hcons, hzero hd, hd] at hlead
      have : n / 10 = 0 := hlead.symm
      omega

theorem takeWhole?_repr (n : Nat) {rest : List UInt8} (hrest : Delimited rest) :
    takeWhole? (octets n.repr ++ rest) = some (digits n, rest) := by
  have hdigits : takeDigits (octets n.repr ++ rest) = (digits n, rest) := by
    rw [octets_repr]
    exact takeDigits_append (fun c hc => Nat.isDigit_of_mem_toDigits (by decide) (by decide) hc) hrest
  obtain ⟨d, ds, hcons, hzero⟩ := digits_eq_cons n
  rw [takeWhole?, hdigits, hcons]
  cases d with
  | zero =>
    rw [hzero rfl]
    rfl
  | succ d => rfl

theorem takeNumeral?_repr (negative : Bool) (n : Nat) {rest : List UInt8} (hrest : Delimited rest) :
    takeNumeral? negative (octets n.repr ++ rest) = some (⟨negative, digits n, none, none⟩, rest) := by
  have hfraction : takeFraction? rest = some (none, rest) := by
    cases rest with
    | nil => rfl
    | cons b bs => rw [takeFraction?, if_neg (hrest b rfl).2.1]
  have hexponent : takeExponent? rest = some (none, rest) := by
    cases rest with
    | nil => rfl
    | cons b bs =>
      obtain ⟨-, -, he, hE⟩ := hrest b rfl
      simp [takeExponent?, he, hE]
  simp [takeNumeral?, takeWhole?_repr n hrest, hfraction, hexponent]

/-- A significand takes all digits of a number that fits. -/
theorem append_eq {n : Nat} {ds : List Nat}
    (h : ds.foldl (fun n d => 10 * n + d) n ≤ Numeral.significandMax) :
    Numeral.append n ds = (ds.foldl (fun n d => 10 * n + d) n, []) := by
  have hgrows : ∀ (ds : List Nat) (n : Nat), n ≤ ds.foldl (fun n d => 10 * n + d) n := by
    intro ds
    induction ds with
    | nil => exact Nat.le_refl
    | cons d ds ih =>
      intro n
      exact Nat.le_trans (by omega) (ih (10 * n + d))
  induction ds generalizing n with
  | nil => rfl
  | cons d ds ih =>
    rw [Numeral.append, if_pos (Nat.le_trans (hgrows ds _) h), ih h, List.foldl_cons]

theorem append_digits {n : Nat} (hn : n ≤ Numeral.significandMax) : Numeral.append 0 (digits n) = (n, []) := by
  have hvalue : (digits n).foldl (fun n d => 10 * n + d) 0 = n := ofDigits_digits n
  rw [append_eq (by rw [hvalue]; exact hn), hvalue]

theorem value?_natural {n : Nat} (hn : n ≤ Numeral.significandMax) :
    (Numeral.mk false (digits n) none none).value? = some (.integer n) := by
  simp [Numeral.value?, append_digits hn]

theorem value?_negative {n : Nat} (hpos : 0 < n) (hn : n ≤ 0x8000000000000000) :
    (Numeral.mk true (digits n) none none).value? = some (.integer (-n)) := by
  have hfits : n ≤ Numeral.significandMax := Nat.le_trans hn (by decide)
  simp [Numeral.value?, append_digits hfits, hpos, hn]

theorem ne_of_digit {b o : UInt8} (hb : 48 ≤ b ∧ b ≤ 57) (ho : ¬ (48 ≤ o ∧ o ≤ 57)) : b ≠ o :=
  fun hbo => ho (hbo ▸ hb)

/-- A token that begins with a digit is a number. -/
theorem take?_digit {b : UInt8} (hb : 48 ≤ b ∧ b ≤ 57) (bs : List UInt8) :
    take? b bs = (takeNumeral? false (b :: bs)).map fun r => (.scalar (r.1.value?.elim .unreadable .number), r.2) := by
  have hne : ∀ o : UInt8, ¬ (48 ≤ o ∧ o ≤ 57) → b ≠ o := fun o => ne_of_digit hb
  simp only [take?, hne (octet '[') (by decide), hne (octet ']') (by decide), hne 0x7b (by decide),
    hne 0x7d (by decide), hne (octet ',') (by decide), hne (octet ':') (by decide), hne (octet '"') (by decide),
    hne (octet 'n') (by decide), hne (octet 't') (by decide), hne (octet 'f') (by decide),
    hne (octet '-') (by decide), if_false]

theorem take?_minus (bs : List UInt8) : take? (octet '-') bs =
    (takeNumeral? true bs).map fun r => (.scalar (r.1.value?.elim .unreadable .number), r.2) := rfl

theorem isBlank_digit {b : UInt8} (hb : 48 ≤ b ∧ b ≤ 57) : isBlank b = false := by
  have hne : ∀ o : UInt8, ¬ (48 ≤ o ∧ o ≤ 57) → b ≠ o := fun o => ne_of_digit hb
  simp only [isBlank, hne 32 (by decide), hne 9 (by decide), hne 10 (by decide), hne 13 (by decide), decide_false,
    Bool.or_self]

theorem octets_repr_eq_cons (n : Nat) : ∃ b bs, octets n.repr = b :: bs ∧ 48 ≤ b ∧ b ≤ 57 := by
  cases hds : Nat.toDigits 10 n with
  | nil => exact absurd hds Nat.toDigits_ne_nil
  | cons c cs =>
    have hc : c.isDigit := Nat.isDigit_of_mem_toDigits (by decide) (by decide) (hds ▸ List.mem_cons_self)
    exact ⟨octet c, cs.map octet, by rw [octets_repr, hds, List.map_cons], (octet_digit hc).1⟩

theorem spelled_natural {n : Nat} (hn : n ≤ Numeral.significandMax) {rest : List UInt8} (hrest : Delimited rest) :
    Spelled (octets n.repr) (.scalar (.number (.integer n))) rest := by
  obtain ⟨b, bs, hos, hb⟩ := octets_repr_eq_cons n
  refine ⟨b, bs, hos, isBlank_digit hb, ?_⟩
  rw [take?_digit hb, ← List.cons_append, ← hos, takeNumeral?_repr false n hrest, Option.map_some,
    value?_natural hn, Option.elim_some]

theorem spelled_negative {n : Nat} (hpos : 0 < n) (hn : n ≤ 0x8000000000000000) {rest : List UInt8}
    (hrest : Delimited rest) :
    Spelled (octets ("-" ++ n.repr)) (.scalar (.number (.integer (-n)))) rest := by
  have hminus : octets "-" = [octet '-'] := by
    rw [octets_eq]
    rfl
  refine ⟨octet '-', octets n.repr, by rw [octets_append, hminus, List.singleton_append], by decide, ?_⟩
  rw [take?_minus, takeNumeral?_repr true n hrest, Option.map_some, value?_negative hpos hn, Option.elim_some]

/-- **A written integer that fits 64 bits is read as that integer.** -/
theorem spelled_integer {i : Int} (hlow : -0x8000000000000000 ≤ i) (hhigh : i ≤ 0xFFFFFFFFFFFFFFFF)
    {rest : List UInt8} (hrest : Delimited rest) :
    Spelled (octets (toString i)) (.scalar (.number (.integer i))) rest := by
  have hrepr : toString i = if 0 ≤ i then i.toNat.repr else "-" ++ (-i).toNat.repr := Int.repr_eq_if
  rw [hrepr]
  by_cases hi : 0 ≤ i
  · obtain ⟨n, rfl⟩ := Int.eq_ofNat_of_zero_le hi
    rw [if_pos hi, Int.toNat_natCast]
    exact spelled_natural (Int.ofNat_le.1 hhigh) hrest
  · obtain ⟨n, hn⟩ := Int.eq_ofNat_of_zero_le (show 0 ≤ -i by omega)
    obtain rfl : i = -n := by omega
    rw [if_neg hi, Int.neg_neg, Int.toNat_natCast]
    exact spelled_negative (by omega) (by omega) hrest

end Token

end Coupling.Json
