/-
Reading back what was written.

`Json.tokens` lists the tokens a value is written as. The octets of its text are
divided into just these, and they take the reader's machine from where a value
may stand to the place after that value. Main statement: `ofOctets?_write`, for
every value that is `Exact`. One that is not too deep for it is also taken in
whole (`readable_of_exact`).
-/
import Mathlib.Data.List.Forall2
import Coupling.Json.Reader
import Coupling.Proofs.Json.Spelling

namespace Coupling.Json

mutual

/-- Whether a value can be told from its text: nothing in it is unreadable, and its numbers are integers of
64 bits. -/
def Exact : Json → Prop
  | .null | .bool _ | .string _ => True
  | .number (.integer i) => -0x8000000000000000 ≤ i ∧ i ≤ 0xFFFFFFFFFFFFFFFF
  | .number (.real _) | .unreadable => False
  | .array js => AllExact js
  | .object ms => MembersExact ms

def AllExact : List Json → Prop
  | [] => True
  | j :: js => j.Exact ∧ AllExact js

def MembersExact : List (String × Json) → Prop
  | [] => True
  | (_, j) :: ms => j.Exact ∧ MembersExact ms

end

/-! ## Written tokens -/

mutual

/-- The tokens a value is written as. -/
def tokens : Json → List Token
  | .null | .unreadable => [.scalar .null]
  | .bool b => [.scalar (.bool b)]
  | .number n => [.scalar (.number n)]
  | .string s => [.string (some s)]
  | .array js => .openArray :: ([.comma].intercalate (tokensAll js) ++ [.closeArray])
  | .object ms => .openObject :: ([.comma].intercalate (tokensMembers ms) ++ [.closeObject])

def tokensAll : List Json → List (List Token)
  | [] => []
  | j :: js => j.tokens :: tokensAll js

def tokensMembers : List (String × Json) → List (List Token)
  | [] => []
  | (k, j) :: ms => (.string (some k) :: .colon :: j.tokens) :: tokensMembers ms

end

theorem intercalate_comma (ts : List Token) (tss : List (List Token)) :
    [Token.comma].intercalate (ts :: tss) = ts ++ tss.flatMap (Token.comma :: ·) := by
  induction tss generalizing ts with
  | nil => simp
  | cons us tss ih =>
    rw [List.intercalate_cons_cons, ih, List.flatMap_cons, List.append_assoc]
    rfl

namespace Token

/-- The octets are read as the tokens, and `rest` is left over. -/
inductive Scan : List UInt8 → List Token → List UInt8 → Prop
  | nil (rest : List UInt8) : Scan rest [] rest
  | cons {os mid rest : List UInt8} {t : Token} {ts : List Token} :
    Spelled os t mid → Scan mid ts rest → Scan (os ++ mid) (t :: ts) rest

namespace Scan

variable {bs mid rest : List UInt8} {ts us : List Token}

theorem append (h : Scan bs ts mid) (h' : Scan mid us rest) : Scan bs (ts ++ us) rest := by
  induction h with
  | nil => exact h'
  | cons ht _ ih => exact .cons ht (ih h')

/-- Every token takes an octet at least. -/
theorem length_le (h : Scan bs ts rest) : ts.length ≤ bs.length := by
  induction h with
  | nil => exact Nat.zero_le _
  | cons ht _ ih =>
    obtain ⟨b, os, rfl, -⟩ := ht
    simp only [List.length_cons, List.length_append]
    omega

theorem takeAll?_eq (h : Scan bs ts rest) (fuel : Nat) (acc : List Token) :
    takeAll? (ts.length + fuel) acc bs = takeAll? fuel (ts.reverse ++ acc) rest := by
  induction h generalizing acc with
  | nil => rw [List.length_nil, Nat.zero_add, List.reverse_nil, List.nil_append]
  | cons ht _ ih =>
    obtain ⟨b, os, rfl, hblank, htake⟩ := ht
    rw [List.length_cons, Nat.add_right_comm, List.cons_append, takeAll?, hblank, htake]
    simp only [Bool.false_eq_true, if_false]
    rw [ih, List.reverse_cons, List.append_assoc]
    rfl

theorem ofOctets?_eq (h : Scan bs ts []) : Token.ofOctets? bs = some ts := by
  obtain ⟨fuel, hfuel⟩ := Nat.exists_eq_add_of_le h.length_le
  rw [Token.ofOctets?, hfuel, h.takeAll?_eq, takeAll?, List.append_nil, List.reverse_reverse]

end Scan

/-! ## Dividing a text -/

/-- The text is read as the tokens in front of whatever cannot be taken for more of a number. -/
def ReadAs (s : String) (ts : List Token) : Prop :=
  ∀ rest, Delimited rest → Scan (octets s ++ rest) ts rest

theorem readAs_of_spelled {s : String} {t : Token} (h : ∀ rest, Delimited rest → Spelled (octets s) t rest) :
    ReadAs s [t] := fun rest hrest => .cons (h rest hrest) (.nil rest)

theorem delimited_nil : Delimited [] := by
  intro b hb
  cases hb

theorem delimited_cons {b : UInt8} (hb : ¬ (48 ≤ b ∧ b ≤ 57) ∧ b ≠ octet '.' ∧ b ≠ octet 'e' ∧ b ≠ octet 'E')
    (bs : List UInt8) : Delimited (b :: bs) := by
  intro b' hb'
  obtain rfl : b = b' := Option.some.inj hb'
  exact hb

/-- A character whose octet is a token alone. It ends a number. -/
structure IsMark (c : Char) (t : Token) : Prop where
  octets_eq : octets (String.ofList [c]) = [octet c]
  notBlank : isBlank (octet c) = false
  taken : ∀ bs, take? (octet c) bs = some (t, bs)
  delimits : ∀ bs, Delimited (octet c :: bs)

theorem isMark_openArray : IsMark '[' .openArray :=
  ⟨octets_ascii (by decide), by decide, fun _ => rfl, delimited_cons (by decide)⟩

theorem isMark_closeArray : IsMark ']' .closeArray :=
  ⟨octets_ascii (by decide), by decide, fun _ => rfl, delimited_cons (by decide)⟩

theorem isMark_openObject : IsMark '\x7b' .openObject :=
  ⟨octets_ascii (by decide), by decide, fun _ => rfl, delimited_cons (by decide)⟩

theorem isMark_closeObject : IsMark '\x7d' .closeObject :=
  ⟨octets_ascii (by decide), by decide, fun _ => rfl, delimited_cons (by decide)⟩

theorem isMark_comma : IsMark ',' .comma :=
  ⟨octets_ascii (by decide), by decide, fun _ => rfl, delimited_cons (by decide)⟩

theorem isMark_colon : IsMark ':' .colon :=
  ⟨octets_ascii (by decide), by decide, fun _ => rfl, delimited_cons (by decide)⟩

namespace IsMark

variable {c : Char} {t : Token}

theorem scan (h : IsMark c t) {bs rest : List UInt8} {ts : List Token} (hbs : Scan bs ts rest) :
    Scan (octets (String.ofList [c]) ++ bs) (t :: ts) rest :=
  .cons ⟨octet c, [], h.octets_eq, h.notBlank, h.taken _⟩ hbs

theorem delimited (h : IsMark c t) (bs : List UInt8) : Delimited (octets (String.ofList [c]) ++ bs) := by
  rw [h.octets_eq]
  exact h.delimits bs

end IsMark

/-- The octets of texts with a comma in front of each. -/
def tail (ss : List String) : List UInt8 := ss.flatMap fun s => octets "," ++ octets s

theorem octets_intercalate (s : String) (ss : List String) :
    octets (",".intercalate (s :: ss)) = octets s ++ tail ss := by
  induction ss generalizing s with
  | nil => simp [tail]
  | cons t ss ih =>
    rw [String.intercalate_cons_cons, octets_append, octets_append, ih]
    simp only [tail, List.flatMap_cons, List.append_assoc]

theorem delimited_tail (ss : List String) {rest : List UInt8} (hrest : Delimited rest) :
    Delimited (tail ss ++ rest) := by
  cases ss with
  | nil => exact hrest
  | cons s ss =>
    rw [tail, List.flatMap_cons, List.append_assoc, List.append_assoc]
    exact isMark_comma.delimited _

theorem scan_tail {ss : List String} {tss : List (List Token)} (h : List.Forall₂ ReadAs ss tss)
    {rest : List UInt8} (hrest : Delimited rest) : Scan (tail ss ++ rest) (tss.flatMap (Token.comma :: ·)) rest := by
  induction h with
  | nil => exact .nil rest
  | @cons s ts ss tss hs _ ih =>
    rw [tail, List.flatMap_cons, List.flatMap_cons, List.append_assoc, List.append_assoc]
    exact isMark_comma.scan ((hs _ (delimited_tail ss hrest)).append ih)

/-- Texts with commas between them are read one after the other. -/
theorem readAs_intercalate {ss : List String} {tss : List (List Token)} (h : List.Forall₂ ReadAs ss tss) :
    ReadAs (",".intercalate ss) ([Token.comma].intercalate tss) := by
  intro rest hrest
  cases h with
  | nil =>
    rw [String.intercalate_nil, octets_eq]
    exact .nil rest
  | @cons s ts ss tss hs hss =>
    rw [octets_intercalate, intercalate_comma, List.append_assoc]
    exact (hs _ (delimited_tail ss hrest)).append (scan_tail hss hrest)

/-- What stands between two marks is read between their tokens. -/
theorem ReadAs.enclosed {s : String} {ts : List Token} (h : ReadAs s ts) {c d : Char} {t u : Token}
    (hc : IsMark c t) (hd : IsMark d u) :
    ReadAs (String.ofList [c] ++ s ++ String.ofList [d]) (t :: (ts ++ [u])) := by
  intro rest _
  rw [octets_append, octets_append, List.append_assoc, List.append_assoc]
  exact hc.scan ((h _ (hd.delimited rest)).append (hd.scan (.nil rest)))

/-- A name, a colon and a value. -/
theorem ReadAs.member {s : String} {ts : List Token} (h : ReadAs s ts) (k : String) :
    ReadAs (quoted k ++ ":" ++ s) (.string (some k) :: .colon :: ts) := by
  intro rest hrest
  rw [octets_append, octets_append, List.append_assoc, List.append_assoc]
  exact .cons (spelled_quoted k _) (isMark_colon.scan (h rest hrest))

theorem readAs_literal {cs : List Char} (hcs : cs.all (·.toNat < 128)) {j : Json}
    (htake : ∃ c w, cs = c :: w ∧ isBlank (octet c) = false ∧
      ∀ rest, take? (octet c) (w.map octet ++ rest) = some (.scalar j, rest)) :
    ReadAs (String.ofList cs) [.scalar j] := by
  obtain ⟨c, w, rfl, hblank, htake⟩ := htake
  refine readAs_of_spelled fun rest _ => ⟨octet c, w.map octet, octets_ascii hcs, hblank, htake rest⟩

end Token

open Token (ReadAs)

mutual

/-- **The text of a value is read as its tokens.** -/
theorem readAs_write : ∀ j : Json, j.Exact → ReadAs j.write j.tokens
  | .null, _ => Token.readAs_literal (by decide) ⟨'n', ['u', 'l', 'l'], rfl, by decide, fun _ => rfl⟩
  | .bool true, _ => Token.readAs_literal (by decide) ⟨'t', ['r', 'u', 'e'], rfl, by decide, fun _ => rfl⟩
  | .bool false, _ => Token.readAs_literal (by decide) ⟨'f', ['a', 'l', 's', 'e'], rfl, by decide, fun _ => rfl⟩
  | .number (.integer i), h => by
    rw [Exact] at h
    rw [tokens]
    exact Token.readAs_of_spelled fun rest hrest => Token.spelled_integer h.1 h.2 hrest
  | .number (.real _), h => by
    simp only [Exact] at h
  | .unreadable, h => by
    simp only [Exact] at h
  | .string s, _ => by
    rw [tokens]
    exact Token.readAs_of_spelled fun rest _ => Token.spelled_quoted s rest
  | .array js, h => by
    rw [Exact] at h
    rw [write, tokens]
    exact (Token.readAs_intercalate (readAs_writeAll js h)).enclosed Token.isMark_openArray Token.isMark_closeArray
  | .object ms, h => by
    rw [Exact] at h
    rw [write, tokens]
    exact (Token.readAs_intercalate (readAs_writeMembers ms h)).enclosed Token.isMark_openObject
      Token.isMark_closeObject

theorem readAs_writeAll : ∀ js : List Json, AllExact js → List.Forall₂ ReadAs (writeAll js) (tokensAll js)
  | [], _ => by
    rw [writeAll, tokensAll]
    exact .nil
  | j :: js, h => by
    rw [AllExact] at h
    rw [writeAll, tokensAll]
    exact .cons (readAs_write j h.1) (readAs_writeAll js h.2)

theorem readAs_writeMembers : ∀ ms : List (String × Json), MembersExact ms →
    List.Forall₂ ReadAs (writeMembers ms) (tokensMembers ms)
  | [], _ => by
    rw [writeMembers, tokensMembers]
    exact .nil
  | (k, j) :: ms, h => by
    rw [MembersExact] at h
    rw [writeMembers, tokensMembers]
    exact .cons ((readAs_write j h.1).member k) (readAs_writeMembers ms h.2)

end

/-! ## Driving the machine -/

namespace Place

/-- The first item of an array is read like any value. -/
theorem foldlM_firstItem (j : Json) (ts : List Token) (fs : List Frame) :
    (j.tokens ++ ts).foldlM step (.firstItem fs) = (j.tokens ++ ts).foldlM step (.value (.array [] :: fs)) := by
  cases j <;> simp only [tokens, List.cons_append, List.foldlM_cons] <;> rfl

/-- A member with its name. -/
def member (m : String × Json) : Option String × Json := (some m.1, m.2)

theorem closed_members (ms : List (String × Json)) : closed (ms.map member) = .object ms.reverse := by
  have hnamed : named? (ms.map member) = some ms := by
    induction ms with
    | nil => rfl
    | cons m ms ih => rw [List.map_cons, member, named?, ih, Option.map_some]
  rw [closed, hnamed, Option.elim_some]

mutual

/-- **The tokens of a value lead to the place after it.** -/
theorem foldlM_tokens : ∀ (j : Json) (fs : List Frame) (ts : List Token), j.Exact →
    (j.tokens ++ ts).foldlM step (.value fs) = ts.foldlM step (after j fs)
  | .null, fs, ts, _ => by
    rw [tokens]
    rfl
  | .bool b, fs, ts, _ => by
    rw [tokens]
    rfl
  | .number n, fs, ts, _ => by
    rw [tokens]
    rfl
  | .string s, fs, ts, _ => by
    rw [tokens]
    rfl
  | .unreadable, fs, ts, h => by
    simp only [Exact] at h
  | .array [], fs, ts, _ => by
    rw [tokens, tokensAll]
    rfl
  | .array (j :: js), fs, ts, h => by
    rw [Exact, AllExact] at h
    rw [tokens, tokensAll, intercalate_comma]
    simp only [List.cons_append, List.append_assoc, List.foldlM_cons]
    refine (foldlM_firstItem j _ fs).trans ?_
    rw [foldlM_tokens j _ _ h.1]
    exact foldlM_items js [j] fs ts h.2
  | .object [], fs, ts, _ => by
    rw [tokens, tokensMembers]
    rfl
  | .object ((k, j) :: ms), fs, ts, h => by
    rw [Exact, MembersExact] at h
    rw [tokens, tokensMembers, intercalate_comma]
    simp only [List.cons_append, List.append_assoc, List.foldlM_cons]
    refine (foldlM_tokens j (.object [] (some k) :: fs) _ h.1).trans ?_
    exact foldlM_members ms [(k, j)] fs ts h.2

theorem foldlM_items : ∀ (js items : List Json) (fs : List Frame) (ts : List Token), AllExact js →
    ((tokensAll js).flatMap (Token.comma :: ·) ++ Token.closeArray :: ts).foldlM step (.next (.array items :: fs)) =
      ts.foldlM step (after (.array (items.reverse ++ js)) fs)
  | [], items, fs, ts, _ => by
    rw [List.append_nil]
    rfl
  | j :: js, items, fs, ts, h => by
    rw [AllExact] at h
    rw [tokensAll, List.flatMap_cons]
    simp only [List.cons_append, List.append_assoc, List.foldlM_cons]
    refine (foldlM_tokens j (.array items :: fs) _ h.1).trans ?_
    rw [after, foldlM_items js (j :: items) fs ts h.2, List.reverse_cons, List.append_assoc]
    rfl

theorem foldlM_members : ∀ (ms members : List (String × Json)) (fs : List Frame) (ts : List Token), MembersExact ms →
    ((tokensMembers ms).flatMap (Token.comma :: ·) ++ Token.closeObject :: ts).foldlM step
        (.next (.object (members.map member) none :: fs)) =
      ts.foldlM step (after (.object (members.reverse ++ ms)) fs)
  | [], members, fs, ts, _ => by
    rw [List.append_nil, ← closed_members]
    rfl
  | (k, j) :: ms, members, fs, ts, h => by
    rw [MembersExact] at h
    rw [tokensMembers, List.flatMap_cons]
    simp only [List.cons_append, List.append_assoc, List.foldlM_cons]
    refine (foldlM_tokens j (.object (members.map member) (some k) :: fs) _ h.1).trans ?_
    have hnext := foldlM_members ms ((k, j) :: members) fs ts h.2
    rw [List.reverse_cons, List.append_assoc] at hnext
    exact hnext

end

end Place

theorem ofTokens?_tokens {j : Json} (h : j.Exact) : ofTokens? j.tokens = some j := by
  have hsteps := Place.foldlM_tokens j [] [] h
  rw [List.append_nil] at hsteps
  rw [ofTokens?, hsteps]
  rfl

/-- **A value is read back from its text**, if it can be told from it. -/
theorem ofOctets?_write {j : Json} (h : j.Exact) : ofOctets? (octets j.write) = some j := by
  have hscan := readAs_write j h [] Token.delimited_nil
  rw [List.append_nil] at hscan
  rw [ofOctets?, hscan.ofOctets?_eq, Option.bind_some, ofTokens?_tokens h]

/-! ## Depth -/

mutual

/-- How many arrays and objects a value nests. -/
def depth : Json → Nat
  | .array js => depthAll js + 1
  | .object ms => depthMembers ms + 1
  | _ => 0

def depthAll : List Json → Nat
  | [] => 0
  | j :: js => max j.depth (depthAll js)

def depthMembers : List (String × Json) → Nat
  | [] => 0
  | (_, j) :: ms => max j.depth (depthMembers ms)

end

theorem depthAll_le {js : List Json} {n : Nat} : depthAll js ≤ n ↔ ∀ j ∈ js, j.depth ≤ n := by
  induction js with
  | nil => simp [depthAll]
  | cons j js ih => rw [depthAll, Nat.max_le, ih, List.forall_mem_cons]

theorem depthMembers_le {ms : List (String × Json)} {n : Nat} : depthMembers ms ≤ n ↔ ∀ m ∈ ms, m.2.depth ≤ n := by
  induction ms with
  | nil => simp [depthMembers]
  | cons m ms ih => rw [depthMembers, Nat.max_le, ih, List.forall_mem_cons]

theorem depth_array_le {js : List Json} {room : Nat} :
    (Json.array js).depth ≤ room ↔ ∃ inner, room = inner + 1 ∧ ∀ j ∈ js, j.depth ≤ inner := by
  rw [depth]
  cases room with
  | zero => simp
  | succ room => simp [depthAll_le]

theorem depth_object_le {ms : List (String × Json)} {room : Nat} :
    (Json.object ms).depth ≤ room ↔ ∃ inner, room = inner + 1 ∧ ∀ m ∈ ms, m.2.depth ≤ inner := by
  rw [depth]
  cases room with
  | zero => simp
  | succ room => simp [depthMembers_le]

theorem allExact_iff {js : List Json} : AllExact js ↔ ∀ j ∈ js, j.Exact := by
  induction js with
  | nil => simp [AllExact]
  | cons j js ih => rw [AllExact, ih, List.forall_mem_cons]

mutual

/-- A value that can be told from its text and fits the room is taken in whole. -/
theorem readable_of_exact : ∀ (j : Json) (room : Nat), j.Exact → j.depth ≤ room → j.readable room
  | .null, _, _, _ | .bool _, _, _, _ | .number _, _, _, _ | .string _, _, _, _ => by rw [readable]
  | .unreadable, _, h, _ => by
    simp only [Exact] at h
  | .array js, room, h, hdepth => by
    obtain ⟨inner, rfl, hitems⟩ := depth_array_le.1 hdepth
    rw [Exact] at h
    simp [readable, allReadable_of_exact js inner h hitems]
  | .object ms, room, h, hdepth => by
    obtain ⟨inner, rfl, hmembers⟩ := depth_object_le.1 hdepth
    rw [Exact] at h
    simp [readable, membersReadable_of_exact ms inner h hmembers]

theorem allReadable_of_exact : ∀ (js : List Json) (room : Nat), AllExact js → (∀ j ∈ js, j.depth ≤ room) →
    allReadable room js
  | [], _, _, _ => by rw [allReadable]
  | j :: js, room, h, hdepth => by
    rw [AllExact] at h
    obtain ⟨hj, hjs⟩ := List.forall_mem_cons.1 hdepth
    rw [allReadable, readable_of_exact j room h.1 hj, allReadable_of_exact js room h.2 hjs, Bool.true_and]

theorem membersReadable_of_exact : ∀ (ms : List (String × Json)) (room : Nat), MembersExact ms →
    (∀ m ∈ ms, m.2.depth ≤ room) → membersReadable room ms
  | [], _, _, _ => by rw [membersReadable]
  | (_, j) :: ms, room, h, hdepth => by
    rw [MembersExact] at h
    obtain ⟨hj, hms⟩ := List.forall_mem_cons.1 hdepth
    rw [membersReadable, readable_of_exact j room h.1 hj, membersReadable_of_exact ms room h.2 hms, Bool.true_and]

end

end Coupling.Json
