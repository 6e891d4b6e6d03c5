import Mathlib.Tactic
import Primer.Text.Utf8

/-!
The decoder accepts exactly the encodings.

Between characters the decoder is in the same state wherever it is, so it is enough to follow it
over one character. A lead byte fixes how many bytes follow and what the first of them may be, and
these limits leave exactly the bytes of the shortest encoding of a character.
-/

namespace Primer.Text

def encode (cs : List Char) : List UInt8 := cs.flatMap String.utf8EncodeChar

def Utf8Partial.next (p : Utf8Partial) (b : UInt8) : Utf8Partial :=
  ⟨p.first, p.start, p.missing - 1, 0x80, 0xBF, p.bits * 64 + (b.toNat - 0x80)⟩

/-- The bytes that are missing from a character, and the code that they complete. -/
inductive Completes : Utf8Partial → List UInt8 → ℕ → Prop
  | last {p : Utf8Partial} {b : UInt8} {code : ℕ} (hmissing : p.missing ≤ 1)
      (hlow : p.low ≤ b.toNat) (hhigh : b.toNat ≤ p.high)
      (hcode : code = p.bits * 64 + (b.toNat - 0x80)) : Completes p [b] code
  | more {p : Utf8Partial} {b : UInt8} {bs : List UInt8} {code : ℕ} (hmissing : 1 < p.missing)
      (hlow : p.low ≤ b.toNat) (hhigh : b.toNat ≤ p.high) (h : Completes (p.next b) bs code) :
      Completes p (b :: bs) code

variable {p : Utf8Partial} {bs : List UInt8} {code : ℕ}

lemma completes_last_iff (hmissing : p.missing ≤ 1) :
    Completes p bs code ↔ ∃ b, bs = [b] ∧ p.low ≤ b.toNat ∧ b.toNat ≤ p.high ∧
      code = p.bits * 64 + (b.toNat - 0x80) := by
  constructor
  · intro h
    cases h with
    | last _ hlow hhigh hcode => exact ⟨_, rfl, hlow, hhigh, hcode⟩
    | more hmore => omega
  · rintro ⟨b, rfl, hlow, hhigh, hcode⟩
    exact .last hmissing hlow hhigh hcode

lemma completes_more_iff (hmissing : 1 < p.missing) :
    Completes p bs code ↔ ∃ b bs', bs = b :: bs' ∧ p.low ≤ b.toNat ∧ b.toNat ≤ p.high ∧
      Completes (p.next b) bs' code := by
  constructor
  · intro h
    cases h with
    | last hlast => omega
    | more _ hlow hhigh h => exact ⟨_, _, rfl, hlow, hhigh, h⟩
  · rintro ⟨b, bs', rfl, hlow, hhigh, h⟩
    exact .more hmissing hlow hhigh h

/-- **Step**: inside a character the decoder goes on if the missing bytes come next. -/
lemma utf8Loop_some_eq_ok {done cs : List Char} (bytes : List UInt8) :
    ∀ pos p, utf8Loop pos done (some p) bytes = .ok cs ↔ ∃ bs rest code, bytes = bs ++ rest ∧
      Completes p bs code ∧
      utf8Loop (pos + bs.length) (Char.ofNat code :: done) none rest = .ok cs := by
  induction bytes with
  | nil =>
    intro pos p
    constructor
    · intro h
      simp [utf8Loop] at h
    · rintro ⟨bs, rest, code, hbytes, hcompletes, -⟩
      obtain ⟨rfl, -⟩ := List.append_eq_nil_iff.1 hbytes.symm
      cases hcompletes
  | cons b bytes ih =>
    intro pos p
    have hrange : (∃ bs rest code, b :: bytes = bs ++ rest ∧ Completes p bs code ∧
        utf8Loop (pos + bs.length) (Char.ofNat code :: done) none rest = .ok cs) →
        p.low ≤ b.toNat ∧ b.toNat ≤ p.high := by
      rintro ⟨_, rest, code, hbytes, (⟨-, hlow, hhigh, -⟩ | ⟨-, hlow, hhigh, -⟩), -⟩ <;>
      · obtain ⟨rfl, -⟩ := List.cons.inj hbytes
        exact ⟨hlow, hhigh⟩
    rw [utf8Loop]
    dsimp only
    by_cases hbyte : p.low ≤ b.toNat ∧ b.toNat ≤ p.high
    · rw [if_pos hbyte]
      by_cases hmissing : p.missing ≤ 1
      · rw [if_pos hmissing]
        simp only [completes_last_iff hmissing]
        constructor
        · intro h
          refine ⟨[b], bytes, _, rfl, ⟨b, rfl, hbyte.1, hbyte.2, Eq.refl _⟩, h⟩
        · rintro ⟨_, rest, code, hbytes, ⟨b', rfl, -, -, hcode⟩, h⟩
          obtain ⟨rfl, rfl⟩ := List.cons.inj hbytes
          rwa [← hcode]
      · rw [if_neg hmissing]
        simp only [completes_more_iff (Nat.lt_of_not_le hmissing)]
        refine (ih (pos + 1) (p.next b)).trans ?_
        constructor
        · rintro ⟨bs, rest, code, rfl, hcompletes, h⟩
          refine ⟨b :: bs, rest, code, rfl, ⟨b, bs, rfl, hbyte.1, hbyte.2, hcompletes⟩, ?_⟩
          rwa [List.length_cons, Nat.add_comm bs.length, ← Nat.add_assoc]
        · rintro ⟨_, rest, code, hbytes, ⟨b', bs, rfl, -, -, hcompletes⟩, h⟩
          obtain ⟨rfl, rfl⟩ := List.cons.inj hbytes
          refine ⟨bs, rest, code, rfl, hcompletes, ?_⟩
          rwa [List.length_cons, Nat.add_comm bs.length, ← Nat.add_assoc] at h
    · rw [if_neg hbyte]
      exact ⟨nofun, fun h => absurd (hrange h) hbyte⟩

/-! ### One character -/

def Follows (b : UInt8) : Prop := 0x80 ≤ b.toNat ∧ b.toNat ≤ 0xBF

/-- The longer characters by the number of their bytes: the first byte, the others and the code.
No character has a code among the halves of pairs, and none has more bytes than it needs. -/
inductive LongForm : UInt8 → List UInt8 → ℕ → Prop
  | two {b c : UInt8} {code : ℕ} (hb : 0xC2 ≤ b.toNat) (hb' : b.toNat ≤ 0xDF) (hc : Follows c)
      (hcode : code = (b.toNat - 0xC0) * 64 + (c.toNat - 0x80)) : LongForm b [c] code
  | three {b c d : UInt8} {code : ℕ} (hb : 0xE0 ≤ b.toNat) (hb' : b.toNat ≤ 0xEF)
      (hc : Follows c) (hd : Follows d)
      (hcode : code = ((b.toNat - 0xE0) * 64 + (c.toNat - 0x80)) * 64 + (d.toNat - 0x80))
      (hleast : 0x800 ≤ code) (hhalf : code < 0xD800 ∨ 0xDFFF < code) : LongForm b [c, d] code
  | four {b c d e : UInt8} {code : ℕ} (hb : 0xF0 ≤ b.toNat) (hb' : b.toNat ≤ 0xF4)
      (hc : Follows c) (hd : Follows d) (he : Follows e)
      (hcode : code = (((b.toNat - 0xF0) * 64 + (c.toNat - 0x80)) * 64 + (d.toNat - 0x80)) * 64 +
        (e.toNat - 0x80))
      (hleast : 0x10000 ≤ code) (hlast : code ≤ 0x10FFFF) : LongForm b [c, d, e] code

lemma toNat_ofNat (h : code.isValidChar) : (Char.ofNat code).toNat = code := by
  rw [Char.ofNat, dif_pos h]
  rfl

lemma ofNat_eq_iff {n : ℕ} {b : UInt8} (hn : n < 256) : UInt8.ofNat n = b ↔ b.toNat = n := by
  rw [← UInt8.toNat_inj, UInt8.toNat_ofNat', Nat.mod_eq_of_lt hn, eq_comm]

/-- The bytes of a character by its code. -/
lemma utf8EncodeChar_ofNat (h : code.isValidChar) :
    String.utf8EncodeChar (Char.ofNat code) =
      if code ≤ 0x7F then [.ofNat code]
      else if code ≤ 0x7FF then [.ofNat (code / 64 % 32 + 0xC0), .ofNat (code % 64 + 0x80)]
      else if code ≤ 0xFFFF then
        [.ofNat (code / 4096 % 16 + 0xE0), .ofNat (code / 64 % 64 + 0x80),
          .ofNat (code % 64 + 0x80)]
      else
        [.ofNat (code / 262144 % 8 + 0xF0), .ofNat (code / 4096 % 64 + 0x80),
          .ofNat (code / 64 % 64 + 0x80), .ofNat (code % 64 + 0x80)] := by
  unfold String.utf8EncodeChar
  rw [Char.toNat_val, toNat_ofNat h]

lemma LongForm.encoded {b : UInt8} (h : LongForm b bs code) :
    code.isValidChar ∧ String.utf8EncodeChar (Char.ofNat code) = b :: bs := by
  have hvalid : code.isValidChar := by
    unfold Nat.isValidChar
    cases h with
    | two hb hb' hc hcode => unfold Follows at hc; omega
    | three hb hb' hc hd hcode => unfold Follows at hc hd; omega
    | four => omega
  refine ⟨hvalid, ?_⟩
  rw [utf8EncodeChar_ofNat hvalid]
  cases h with
  | two hb hb' hc hcode =>
    unfold Follows at hc
    rw [if_neg (by omega), if_pos (by omega)]
    simp only [List.cons.injEq, and_true]
    rw [ofNat_eq_iff (by omega), ofNat_eq_iff (by omega)]
    omega
  | three hb hb' hc hd hcode =>
    unfold Follows at hc hd
    rw [if_neg (by omega), if_neg (by omega), if_pos (by omega)]
    simp only [List.cons.injEq, and_true]
    rw [ofNat_eq_iff (by omega), ofNat_eq_iff (by omega), ofNat_eq_iff (by omega)]
    omega
  | four hb hb' hc hd he hcode =>
    unfold Follows at hc hd he
    rw [if_neg (by omega), if_neg (by omega), if_neg (by omega)]
    simp only [List.cons.injEq, and_true]
    rw [ofNat_eq_iff (by omega), ofNat_eq_iff (by omega), ofNat_eq_iff (by omega),
      ofNat_eq_iff (by omega)]
    omega

/-- A character has one byte or is one of the longer ones. -/
lemma encodeChar_cases (c : Char) :
    (∃ b, String.utf8EncodeChar c = [b] ∧ b.toNat < 0x80 ∧ c = Char.ofNat b.toNat) ∨
      ∃ b bs, String.utf8EncodeChar c = b :: bs ∧ LongForm b bs c.toNat := by
  have hvalid : c.toNat.isValidChar := c.valid
  have hencode := utf8EncodeChar_ofNat hvalid
  rw [Char.ofNat_toNat] at hencode
  have htoNat {n : ℕ} (hn : n < 256) : (UInt8.ofNat n).toNat = n := (ofNat_eq_iff hn).1 rfl
  unfold Nat.isValidChar at hvalid
  rw [hencode]
  split
  · refine .inl ⟨_, rfl, ?_⟩
    rw [htoNat (by omega), Char.ofNat_toNat]
    exact ⟨by omega, rfl⟩
  · refine .inr ?_
    have hlast := @htoNat (c.toNat % 64 + 0x80) (by omega)
    have hinner := @htoNat (c.toNat / 64 % 64 + 0x80) (by omega)
    split
    · have hlead := @htoNat (c.toNat / 64 % 32 + 0xC0) (by omega)
      refine ⟨_, _, rfl, .two ?_ ?_ ⟨?_, ?_⟩ ?_⟩ <;> omega
    · split
      · have hlead := @htoNat (c.toNat / 4096 % 16 + 0xE0) (by omega)
        refine ⟨_, _, rfl, .three ?_ ?_ ⟨?_, ?_⟩ ⟨?_, ?_⟩ ?_ ?_ ?_⟩ <;> omega
      · have hlead := @htoNat (c.toNat / 262144 % 8 + 0xF0) (by omega)
        have hsecond := @htoNat (c.toNat / 4096 % 64 + 0x80) (by omega)
        refine ⟨_, _, rfl, .four ?_ ?_ ⟨?_, ?_⟩ ⟨?_, ?_⟩ ⟨?_, ?_⟩ ?_ ?_ ?_⟩ <;> omega

/-- The lead bytes that the decoder knows. -/
lemma utf8Lead?_eq_some {n pos : ℕ} : utf8Lead? n pos = some p ↔
    (0xC2 ≤ n ∧ n ≤ 0xDF) ∧ p = ⟨n, pos, 1, 0x80, 0xBF, n - 0xC0⟩ ∨
    (0xE0 ≤ n ∧ n ≤ 0xEF) ∧ p = ⟨n, pos, 2, if n = 0xE0 then 0xA0 else 0x80,
      if n = 0xED then 0x9F else 0xBF, n - 0xE0⟩ ∨
    (0xF0 ≤ n ∧ n ≤ 0xF4) ∧ p = ⟨n, pos, 3, if n = 0xF0 then 0x90 else 0x80,
      if n = 0xF4 then 0x8F else 0xBF, n - 0xF0⟩ := by
  unfold utf8Lead?
  split_ifs <;> grind

/-- Behind a lead byte the decoder accepts exactly the rest of a longer character, and it puts the
code of the character together. -/
lemma exists_lead_iff {b : UInt8} (pos : ℕ) :
    (∃ p, utf8Lead? b.toNat pos = some p ∧ Completes p bs code) ↔ LongForm b bs code := by
  constructor
  · rintro ⟨p, hp, hcompletes⟩
    rcases utf8Lead?_eq_some.1 hp with ⟨hb, rfl⟩ | ⟨hb, rfl⟩ | ⟨hb, rfl⟩
    · obtain ⟨c, rfl, hlow, hhigh, hcode⟩ := (completes_last_iff le_rfl).1 hcompletes
      exact .two hb.1 hb.2 ⟨hlow, hhigh⟩ hcode
    · obtain ⟨c, cs, rfl, hc, hc', hcompletes⟩ := (completes_more_iff Nat.one_lt_two).1 hcompletes
      obtain ⟨d, rfl, hd, hd', hcode⟩ := (completes_last_iff le_rfl).1 hcompletes
      simp only [Utf8Partial.next] at hc hc' hd hd' hcode
      have hlow : 0x80 ≤ c.toNat ∧ (b.toNat = 0xE0 → 0xA0 ≤ c.toNat) := by split at hc <;> omega
      have hhigh : c.toNat ≤ 0xBF ∧ (b.toNat = 0xED → c.toNat ≤ 0x9F) := by split at hc' <;> omega
      exact .three hb.1 hb.2 ⟨hlow.1, hhigh.1⟩ ⟨hd, hd'⟩ hcode (by omega) (by omega)
    · obtain ⟨c, cs, rfl, hc, hc', hcompletes⟩ :=
        (completes_more_iff (by decide : 1 < 3)).1 hcompletes
      obtain ⟨d, cs, rfl, hd, hd', hcompletes⟩ := (completes_more_iff Nat.one_lt_two).1 hcompletes
      obtain ⟨e, rfl, he, he', hcode⟩ := (completes_last_iff le_rfl).1 hcompletes
      simp only [Utf8Partial.next] at hc hc' hd hd' he he' hcode
      have hlow : 0x80 ≤ c.toNat ∧ (b.toNat = 0xF0 → 0x90 ≤ c.toNat) := by split at hc <;> omega
      have hhigh : c.toNat ≤ 0xBF ∧ (b.toNat = 0xF4 → c.toNat ≤ 0x8F) := by split at hc' <;> omega
      exact .four hb.1 hb.2 ⟨hlow.1, hhigh.1⟩ ⟨hd, hd'⟩ ⟨he, he'⟩ hcode (by omega) (by omega)
  · intro h
    cases h with
    | two hb hb' hc hcode =>
      exact ⟨_, utf8Lead?_eq_some.2 (.inl ⟨⟨hb, hb'⟩, rfl⟩), .last le_rfl hc.1 hc.2 hcode⟩
    | three hb hb' hc hd hcode hleast hhalf =>
      unfold Follows at hc hd
      refine ⟨_, utf8Lead?_eq_some.2 (.inr (.inl ⟨⟨hb, hb'⟩, rfl⟩)), ?_⟩
      refine .more Nat.one_lt_two ?_ ?_ (.last le_rfl hd.1 hd.2 hcode)
      · dsimp only
        split <;> omega
      · dsimp only
        split <;> omega
    | four hb hb' hc hd he hcode hleast hlast =>
      unfold Follows at hc hd he
      refine ⟨_, utf8Lead?_eq_some.2 (.inr (.inr ⟨⟨hb, hb'⟩, rfl⟩)), ?_⟩
      refine .more (by decide : 1 < 3) ?_ ?_
        (.more Nat.one_lt_two hd.1 hd.2 (.last le_rfl he.1 he.2 hcode))
      · dsimp only
        split <;> omega
      · dsimp only
        split <;> omega

/-! ### Texts -/

lemma utf8EncodeChar_ascii {b : UInt8} (hb : b.toNat < 0x80) :
    String.utf8EncodeChar (Char.ofNat b.toNat) = [b] := by
  have hvalid : b.toNat.isValidChar := by unfold Nat.isValidChar; omega
  rw [utf8EncodeChar_ofNat hvalid, if_pos (by omega), UInt8.ofNat_toNat]

lemma LongForm.not_ascii {b : UInt8} (h : LongForm b bs code) : ¬ b.toNat < 0x80 := by
  cases h <;> omega

/-- **Step**: between characters the decoder is at the end, or the bytes of a character come next.
-/
lemma utf8Loop_none_eq_ok {bytes : List UInt8} {pos : ℕ} {done cs : List Char} :
    utf8Loop pos done none bytes = .ok cs ↔ bytes = [] ∧ cs = done.reverse ∨
      ∃ c rest, bytes = String.utf8EncodeChar c ++ rest ∧
        utf8Loop (pos + (String.utf8EncodeChar c).length) (c :: done) none rest = .ok cs := by
  cases bytes with
  | nil =>
    rw [utf8Loop]
    constructor
    · intro h
      exact .inl ⟨rfl, (Except.ok.inj h).symm⟩
    · rintro (⟨-, rfl⟩ | ⟨c, rest, hbytes, -⟩)
      · rfl
      · rcases encodeChar_cases c with ⟨b, hb, -⟩ | ⟨b, bs, hb, -⟩ <;> simp [hb] at hbytes
  | cons b bytes =>
    have hcons : ¬ (b :: bytes = [] ∧ cs = done.reverse) := by simp
    rw [or_iff_right hcons, utf8Loop]
    by_cases hb : b.toNat < 0x80
    · rw [if_pos hb]
      constructor
      · intro h
        have hencode := utf8EncodeChar_ascii hb
        exact ⟨Char.ofNat b.toNat, bytes, by rw [hencode]; rfl, by rw [hencode]; exact h⟩
      · rintro ⟨c, rest, hbytes, h⟩
        rcases encodeChar_cases c with ⟨b', hb', -, hc⟩ | ⟨b', bs, hb', hlong⟩
        · rw [hb'] at hbytes h
          obtain ⟨rfl, rfl⟩ := List.cons.inj hbytes
          rwa [← hc]
        · rw [hb'] at hbytes
          obtain ⟨rfl, -⟩ := List.cons.inj hbytes
          exact absurd hb hlong.not_ascii
    · rw [if_neg hb]
      refine Iff.trans (b := ∃ bs rest code, bytes = bs ++ rest ∧ LongForm b bs code ∧
        utf8Loop (pos + 1 + bs.length) (Char.ofNat code :: done) none rest = .ok cs) ?_ ?_
      · simp only [← exists_lead_iff pos]
        cases hfound : utf8Lead? b.toNat pos with
        | none => simp
        | some p =>
          refine (utf8Loop_some_eq_ok bytes (pos + 1) p).trans ?_
          simp
      constructor
      · rintro ⟨bs, rest, code, rfl, hlong, h⟩
        refine ⟨Char.ofNat code, rest, by rw [hlong.encoded.2]; rfl, ?_⟩
        rwa [hlong.encoded.2, List.length_cons, Nat.add_comm bs.length, ← Nat.add_assoc]
      · rintro ⟨c, rest, hbytes, h⟩
        rcases encodeChar_cases c with ⟨b', hb', hsmall, -⟩ | ⟨b', bs, hb', hlong⟩
        · rw [hb'] at hbytes
          obtain ⟨rfl, -⟩ := List.cons.inj hbytes
          exact absurd hsmall hb
        · rw [hb'] at hbytes h
          obtain ⟨rfl, rfl⟩ := List.cons.inj hbytes
          refine ⟨bs, rest, c.toNat, rfl, hlong, ?_⟩
          rwa [Char.ofNat_toNat, Nat.add_assoc, Nat.add_comm 1, ← List.length_cons]

/-- **Run**: the decoder accepts exactly the encodings, and gives back what was encoded. -/
lemma utf8Loop_eq_ok {cs : List Char} (bytes : List UInt8) :
    ∀ pos done, utf8Loop pos done none bytes = .ok cs ↔
      ∃ ds, bytes = encode ds ∧ cs = done.reverse ++ ds := by
  intro pos done
  constructor
  · induction hlength : bytes.length using Nat.strong_induction_on generalizing bytes pos done with
    | _ k ih =>
      intro h
      rcases utf8Loop_none_eq_ok.1 h with ⟨rfl, rfl⟩ | ⟨c, rest, rfl, hrest⟩
      · exact ⟨[], rfl, by simp⟩
      · have hpos := c.utf8Size_pos
        have hshort : rest.length < k := by
          rw [← hlength, List.length_append, String.length_utf8EncodeChar]
          omega
        obtain ⟨ds, rfl, rfl⟩ := ih rest.length hshort rest _ _ rfl hrest
        exact ⟨c :: ds, rfl, by simp⟩
  · rintro ⟨ds, rfl, rfl⟩
    induction ds generalizing pos done with
    | nil => exact utf8Loop_none_eq_ok.2 (.inl ⟨rfl, by simp⟩)
    | cons c ds ih =>
      refine utf8Loop_none_eq_ok.2 (.inr ⟨c, encode ds, rfl, ?_⟩)
      simpa using ih _ (c :: done)

/-- **Texts**: the text of a file is what its bytes encode, with every line end as a line feed. -/
lemma ofBytes_eq_ok {bytes : List UInt8} {text : String} :
    ofBytes bytes = .ok text ↔ ∃ cs, bytes = encode cs ∧ text = String.ofList (unixLines cs) := by
  have hloop (cs : List Char) : utf8Loop 0 [] none bytes = .ok cs ↔ bytes = encode cs := by
    simp [utf8Loop_eq_ok]
  unfold ofBytes
  cases h : utf8Loop 0 [] none bytes with
  | error fault =>
    have hnone (cs : List Char) : bytes ≠ encode cs := by simp [← hloop, h]
    simp [hnone, bind, Except.bind]
  | ok cs =>
    have honly (ds : List Char) : bytes = encode ds ↔ ds = cs := by
      rw [← hloop, h, Except.ok.injEq, eq_comm]
    simp [honly, bind, Except.bind, pure, Except.pure, eq_comm]

end Primer.Text
