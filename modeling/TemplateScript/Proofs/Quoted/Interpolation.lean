import TemplateScript.Proofs.Quoted.Skip

/-!
# The language of double-quoted bodies

A body between double quotes is a sequence of items: a backslash with the byte after it, an
interpolation region, or any other byte that neither closes the string nor opens a region
(`Quoted.DoubleBody`).  A region is balanced text between braces (`Quoted.Balanced`), in which
quoted literals (`Quoted.LiteralBody`) hide their braces.  The language says nothing about a reader.

The reader takes one byte at a time.  `Quoted.Mode.Completes mode body` holds when `body` is what is
left of a body for a reader that stands at `mode`, so `Mode.completes_cons` is the derivative of the
language, and `Mode.next` computes it.

* `Quoted.closing?_double_iff` — the closing quote that is found is the one behind a body;
* `Cursor.skipQuoted_double` — the reader that moves a cursor, from everywhere in every source.
-/

namespace TemplateScript

namespace Quoted

/-! ### The language -/

/-- What stands between the quotes of a literal: a backslash takes the byte after it, whatever that
is, and no other byte is the quote. -/
inductive LiteralBody (quote : UInt8) : Bytes → Prop
  | nil : LiteralBody quote []
  | escape {b : UInt8} {body : Bytes} (further : LiteralBody quote body) :
      LiteralBody quote (Byte.backslash :: b :: body)
  | byte {b : UInt8} {body : Bytes} (plain : b ≠ Byte.backslash ∧ b ≠ quote)
      (further : LiteralBody quote body) : LiteralBody quote (b :: body)

/-- Text in which every brace is balanced, the braces of its literals aside. -/
inductive Balanced : Bytes → Prop
  | nil : Balanced []
  | braces {inner body : Bytes} (inside : Balanced inner) (further : Balanced body) :
      Balanced (Byte.openCurly :: (inner ++ Byte.closeCurly :: body))
  | literal {quote : UInt8} {text body : Bytes}
      (isQuote : quote = Byte.singleQuote ∨ quote = Byte.doubleQuote)
      (inside : LiteralBody quote text) (further : Balanced body) :
      Balanced (quote :: (text ++ quote :: body))
  | byte {b : UInt8} {body : Bytes} (brace : b ≠ Byte.openCurly ∧ b ≠ Byte.closeCurly)
      (quote : ¬ (b = Byte.singleQuote ∨ b = Byte.doubleQuote)) (further : Balanced body) :
      Balanced (b :: body)

/-- What stands between double quotes. -/
inductive DoubleBody : Bytes → Prop
  | nil : DoubleBody []
  | escape {b : UInt8} {body : Bytes} (further : DoubleBody body) :
      DoubleBody (Byte.backslash :: b :: body)
  | region {inner body : Bytes} (inside : Balanced inner) (further : DoubleBody body) :
      DoubleBody (Byte.openCurly :: Byte.dollar :: (inner ++ Byte.closeCurly :: body))
  | byte {b : UInt8} {body : Bytes} (plain : b ≠ Byte.doubleQuote ∧ b ≠ Byte.backslash)
      (opens : ¬ (b = Byte.openCurly ∧ body.head? = some Byte.dollar))
      (further : DoubleBody body) : DoubleBody (b :: body)

/-- What is left of a body after `depth` braces that are still open. -/
def Unwinds : Nat → Bytes → Prop
  | 0, bs => DoubleBody bs
  | depth + 1, bs =>
    ∃ inner rest, bs = inner ++ Byte.closeCurly :: rest ∧ Balanced inner ∧ Unwinds depth rest

namespace Mode

/-- What is left of a body for a reader that stands at this mode. -/
def Completes : Mode → Bytes → Prop
  | body, bs => DoubleBody bs
  | bodyEscape, bs => ∃ b rest, bs = b :: rest ∧ DoubleBody rest
  | region depth, bs => Unwinds depth bs
  | literal depth quote, bs =>
    ∃ text rest, bs = text ++ quote :: rest ∧ LiteralBody quote text ∧ Unwinds depth rest
  | literalEscape depth quote, bs =>
    ∃ b text rest, bs = b :: (text ++ quote :: rest) ∧ LiteralBody quote text ∧
      Unwinds depth rest

/-- Within a region some brace is open, and a literal is between quotes. -/
def Valid : Mode → Prop
  | body => True
  | bodyEscape => True
  | region depth => 0 < depth
  | literal depth quote => 0 < depth ∧ quote ≠ Byte.backslash
  | literalEscape depth quote => 0 < depth ∧ quote ≠ Byte.backslash

end Mode

/-! ### Taking a byte off -/

variable {quote b : UInt8} {depth : Nat} {bs : Bytes}

/-- Behind a backslash of a literal comes a byte that it takes. -/
theorem LiteralBody.of_backslash (hquote : quote ≠ Byte.backslash) :
    (∃ text rest, Byte.backslash :: bs = text ++ quote :: rest ∧ LiteralBody quote text ∧
        Unwinds depth rest) ↔
      ∃ b text rest, bs = b :: (text ++ quote :: rest) ∧ LiteralBody quote text ∧
        Unwinds depth rest := by
  constructor
  · rintro ⟨text, rest, hsplit, htext, hrest⟩
    cases htext with
    | nil => exact absurd (List.cons.inj hsplit).1.symm hquote
    | escape further => exact ⟨_, _, rest, (List.cons.inj hsplit).2, further, hrest⟩
    | byte plain _ => exact absurd (List.cons.inj hsplit).1.symm plain.1
  · rintro ⟨b, text, rest, rfl, htext, hrest⟩
    exact ⟨_, rest, rfl, .escape htext, hrest⟩

/-- The quote of a literal ends it. -/
theorem LiteralBody.of_quote (hquote : quote ≠ Byte.backslash) :
    (∃ text rest, quote :: bs = text ++ quote :: rest ∧ LiteralBody quote text ∧
        Unwinds depth rest) ↔ Unwinds depth bs := by
  constructor
  · rintro ⟨text, rest, hsplit, htext, hrest⟩
    cases htext with
    | nil => exact (List.cons.inj hsplit).2 ▸ hrest
    | escape _ => exact absurd (List.cons.inj hsplit).1 hquote
    | byte plain _ => exact absurd (List.cons.inj hsplit).1.symm plain.2
  · intro h
    exact ⟨[], bs, rfl, .nil, h⟩

/-- Any other byte of a literal is passed. -/
theorem LiteralBody.of_byte (hb : b ≠ Byte.backslash ∧ b ≠ quote) :
    (∃ text rest, b :: bs = text ++ quote :: rest ∧ LiteralBody quote text ∧
        Unwinds depth rest) ↔
      ∃ text rest, bs = text ++ quote :: rest ∧ LiteralBody quote text ∧ Unwinds depth rest := by
  constructor
  · rintro ⟨text, rest, hsplit, htext, hrest⟩
    cases htext with
    | nil => exact absurd (List.cons.inj hsplit).1 hb.2
    | escape _ => exact absurd (List.cons.inj hsplit).1 hb.1
    | byte _ further => exact ⟨_, rest, (List.cons.inj hsplit).2, further, hrest⟩
  · rintro ⟨text, rest, rfl, htext, hrest⟩
    exact ⟨b :: text, rest, rfl, .byte hb htext, hrest⟩

/-- A closing brace closes the innermost region. -/
theorem Unwinds.of_closeCurly :
    Unwinds (depth + 1) (Byte.closeCurly :: bs) ↔ Unwinds depth bs := by
  constructor
  · rintro ⟨inner, rest, hsplit, hinner, hrest⟩
    cases hinner with
    | nil => exact (List.cons.inj hsplit).2 ▸ hrest
    | braces _ _ => exact absurd (List.cons.inj hsplit).1 (by decide)
    | literal isQuote _ _ =>
      rw [← (List.cons.inj hsplit).1] at isQuote
      exact absurd isQuote (by decide)
    | byte brace _ _ => exact absurd (List.cons.inj hsplit).1.symm brace.2
  · intro h
    exact ⟨[], bs, rfl, .nil, h⟩

/-- An opening brace has to be closed first. -/
theorem Unwinds.of_openCurly :
    Unwinds (depth + 1) (Byte.openCurly :: bs) ↔ Unwinds (depth + 2) bs := by
  constructor
  · rintro ⟨inner, rest, hsplit, hinner, hrest⟩
    cases hinner with
    | nil => exact absurd (List.cons.inj hsplit).1 (by decide)
    | @braces inside further hinside hfurther =>
      refine ⟨inside, further ++ Byte.closeCurly :: rest, ?_, hinside, further, rest, rfl, hfurther,
        hrest⟩
      rw [(List.cons.inj hsplit).2]
      exact List.append_assoc inside _ _
    | literal isQuote _ _ =>
      rw [← (List.cons.inj hsplit).1] at isQuote
      exact absurd isQuote (by decide)
    | byte brace _ _ => exact absurd (List.cons.inj hsplit).1.symm brace.1
  · rintro ⟨inside, _, rfl, hinside, further, rest, rfl, hfurther, hrest⟩
    refine ⟨Byte.openCurly :: (inside ++ Byte.closeCurly :: further), rest, ?_,
      .braces hinside hfurther, hrest⟩
    rw [List.cons_append, List.append_assoc, List.cons_append]

/-- A quote of a region opens a literal. -/
theorem Unwinds.of_quote (hb : b = Byte.singleQuote ∨ b = Byte.doubleQuote) :
    Unwinds (depth + 1) (b :: bs) ↔
      ∃ text rest, bs = text ++ b :: rest ∧ LiteralBody b text ∧ Unwinds (depth + 1) rest := by
  constructor
  · rintro ⟨inner, rest, hsplit, hinner, hrest⟩
    cases hinner with
    | nil =>
      rw [(List.cons.inj hsplit).1] at hb
      exact absurd hb (by decide)
    | braces _ _ =>
      rw [(List.cons.inj hsplit).1] at hb
      exact absurd hb (by decide)
    | @literal quote text further isQuote hinside hfurther =>
      obtain ⟨rfl, hsplit⟩ := List.cons.inj hsplit
      refine ⟨text, further ++ Byte.closeCurly :: rest, ?_, hinside, further, rest, rfl, hfurther,
        hrest⟩
      rw [hsplit]
      exact List.append_assoc text _ _
    | byte _ quote _ => exact absurd ((List.cons.inj hsplit).1 ▸ hb) quote
  · rintro ⟨text, _, rfl, htext, further, rest, rfl, hfurther, hrest⟩
    refine ⟨b :: (text ++ b :: further), rest, ?_, .literal hb htext hfurther, hrest⟩
    rw [List.cons_append, List.append_assoc, List.cons_append]

/-- Any other byte of a region is passed. -/
theorem Unwinds.of_byte (brace : b ≠ Byte.openCurly ∧ b ≠ Byte.closeCurly)
    (quote : ¬ (b = Byte.singleQuote ∨ b = Byte.doubleQuote)) :
    Unwinds (depth + 1) (b :: bs) ↔ Unwinds (depth + 1) bs := by
  constructor
  · rintro ⟨inner, rest, hsplit, hinner, hrest⟩
    cases hinner with
    | nil => exact absurd (List.cons.inj hsplit).1 brace.2
    | braces _ _ => exact absurd (List.cons.inj hsplit).1 brace.1
    | literal isQuote _ _ => exact absurd ((List.cons.inj hsplit).1 ▸ isQuote) quote
    | byte _ _ further => exact ⟨_, rest, (List.cons.inj hsplit).2, further, hrest⟩
  · rintro ⟨inner, rest, rfl, hinner, hrest⟩
    exact ⟨b :: inner, rest, rfl, .byte brace quote hinner, hrest⟩

/-- A backslash of the body takes the byte after it. -/
theorem DoubleBody.of_backslash :
    DoubleBody (Byte.backslash :: bs) ↔ ∃ b rest, bs = b :: rest ∧ DoubleBody rest := by
  constructor
  · intro h
    cases h with
    | escape further => exact ⟨_, _, rfl, further⟩
    | byte plain _ _ => exact absurd rfl plain.2
  · rintro ⟨b, rest, rfl, h⟩
    exact .escape h

/-- A brace before a dollar sign opens a region. -/
theorem DoubleBody.of_region (hahead : bs.head? = some Byte.dollar) :
    DoubleBody (Byte.openCurly :: bs) ↔ Unwinds 1 bs := by
  obtain ⟨rest, rfl⟩ := List.head?_eq_some_iff.mp hahead
  rw [Unwinds.of_byte (by decide) (by decide)]
  constructor
  · intro h
    cases h with
    | region inside further => exact ⟨_, _, rfl, inside, further⟩
    | byte _ opens _ => exact absurd ⟨rfl, rfl⟩ opens
  · rintro ⟨inner, rest, rfl, hinner, hrest⟩
    exact .region hinner hrest

/-- Any other byte but the quote is passed. -/
theorem DoubleBody.of_byte (hb : b ≠ Byte.backslash)
    (opens : ¬ (b = Byte.openCurly ∧ bs.head? = some Byte.dollar)) :
    DoubleBody (b :: bs) ↔ b ≠ Byte.doubleQuote ∧ DoubleBody bs := by
  constructor
  · intro h
    cases h with
    | escape _ => exact absurd rfl hb
    | region _ _ => exact absurd ⟨rfl, rfl⟩ opens
    | byte plain _ further => exact ⟨plain.1, further⟩
  · rintro ⟨hquote, h⟩
    exact .byte ⟨hquote, hb⟩ opens h

/-! ### The reader -/

namespace Mode

variable {mode : Mode}

theorem valid_next (valid : mode.Valid) (b : UInt8) (ahead : Option UInt8) :
    (mode.next Byte.doubleQuote b ahead).Valid := by
  cases mode with
  | body =>
    rw [next]
    split
    · trivial
    · split
      · exact Nat.one_pos
      · trivial
  | bodyEscape => trivial
  | region depth =>
    rw [next]
    split
    · exact Nat.succ_pos depth
    · split
      · split
        · trivial
        · next h => exact Nat.sub_pos_of_lt (Nat.lt_of_not_le h)
      · split
        · next h => exact ⟨valid, by rcases h with rfl | rfl <;> decide⟩
        · exact valid
  | literal depth quote =>
    rw [next]
    split
    · exact valid
    · split
      · exact valid.1
      · exact valid
  | literalEscape depth quote => exact valid

/-- The closing quote may come next only in the body itself. -/
theorem completes_nil (valid : mode.Valid) : mode.Completes [] ↔ mode = .body := by
  cases mode with
  | body => exact iff_of_true .nil rfl
  | bodyEscape => exact iff_of_false nofun nofun
  | region depth =>
    obtain ⟨depth, rfl⟩ := Nat.exists_eq_succ_of_ne_zero (Nat.ne_of_gt valid)
    refine iff_of_false ?_ nofun
    rintro ⟨inner, rest, h, -⟩
    cases inner <;> cases h
  | literal depth quote =>
    refine iff_of_false ?_ nofun
    rintro ⟨text, rest, h, -⟩
    cases text <;> cases h
  | literalEscape depth quote => exact iff_of_false nofun nofun

/-- In the body itself, a byte that is no closing quote goes on with the body. -/
theorem completes_body_cons : body.Completes (b :: bs) ↔ b ≠ Byte.doubleQuote ∧
    (body.next Byte.doubleQuote b bs.head?).Completes bs := by
  rw [next]
  by_cases hback : b = Byte.backslash
  · subst hback
    rw [if_pos rfl]
    exact DoubleBody.of_backslash.trans (iff_and_self.mpr fun _ => by decide)
  rw [if_neg hback]
  by_cases hopens : b = Byte.openCurly ∧ bs.head? = some Byte.dollar
  · obtain ⟨rfl, hahead⟩ := hopens
    rw [if_pos ⟨rfl, rfl, hahead⟩]
    exact (DoubleBody.of_region hahead).trans (iff_and_self.mpr fun _ => by decide)
  · rw [if_neg fun h => hopens h.2]
    exact DoubleBody.of_byte hback hopens

/-- In a region, a brace changes how many are open, and a quote begins a literal. -/
theorem completes_region_cons {depth : Nat} (positive : 0 < depth) :
    (region depth).Completes (b :: bs) ↔
      ((region depth).next Byte.doubleQuote b bs.head?).Completes bs := by
  obtain ⟨depth, rfl⟩ := Nat.exists_eq_succ_of_ne_zero (Nat.ne_of_gt positive)
  rw [next]
  by_cases hopen : b = Byte.openCurly
  · subst hopen
    rw [if_pos rfl]
    exact Unwinds.of_openCurly
  rw [if_neg hopen]
  by_cases hclose : b = Byte.closeCurly
  · subst hclose
    rw [if_pos rfl]
    refine Unwinds.of_closeCurly.trans ?_
    cases depth with
    | zero => exact Iff.rfl
    | succ depth => exact Iff.rfl
  rw [if_neg hclose]
  by_cases hquote : b = Byte.singleQuote ∨ b = Byte.doubleQuote
  · rw [if_pos hquote]
    exact Unwinds.of_quote hquote
  · rw [if_neg hquote]
    exact Unwinds.of_byte ⟨hopen, hclose⟩ hquote

/-- In a literal, its quote ends it, and a backslash takes the byte after it. -/
theorem completes_literal_cons {depth : Nat} {quote : UInt8} (hquote : quote ≠ Byte.backslash) :
    (literal depth quote).Completes (b :: bs) ↔
      ((literal depth quote).next Byte.doubleQuote b bs.head?).Completes bs := by
  rw [next]
  by_cases hback : b = Byte.backslash
  · subst hback
    rw [if_pos rfl]
    exact LiteralBody.of_backslash hquote
  rw [if_neg hback]
  by_cases hends : b = quote
  · subst hends
    rw [if_pos rfl]
    exact LiteralBody.of_quote hquote
  · rw [if_neg hends]
    exact LiteralBody.of_byte ⟨hback, hends⟩

/-- A body goes on with a byte exactly when what comes after that byte is left at the next mode. -/
theorem completes_cons (valid : mode.Valid) :
    mode.Completes (b :: bs) ↔ ¬ (mode = .body ∧ b = Byte.doubleQuote) ∧
      (mode.next Byte.doubleQuote b bs.head?).Completes bs := by
  cases mode with
  | body =>
    refine completes_body_cons.trans (and_congr_left fun _ => not_congr ?_)
    rw [and_iff_right rfl]
  | bodyEscape =>
    rw [and_iff_right nofun]
    constructor
    · rintro ⟨_, _, ⟨⟩, h⟩
      exact h
    · intro h
      exact ⟨b, bs, rfl, h⟩
  | region depth =>
    rw [and_iff_right nofun]
    exact completes_region_cons valid
  | literal depth quote =>
    rw [and_iff_right nofun]
    exact completes_literal_cons valid.2
  | literalEscape depth quote =>
    rw [and_iff_right nofun]
    constructor
    · rintro ⟨_, text, rest, ⟨⟩, h⟩
      exact ⟨text, rest, rfl, h⟩
    · rintro ⟨text, rest, rfl, h⟩
      exact ⟨b, text, rest, rfl, h⟩

/-- The byte after one of a body is looked at only to tell a dollar sign, which no quote is. -/
theorem next_append (quote : UInt8) (mode : Mode) (b : UInt8) (body rest : Bytes) :
    mode.next quote b (body ++ Byte.doubleQuote :: rest).head? =
      mode.next quote b body.head? := by
  cases body with
  | cons c body => rfl
  | nil =>
    cases mode with
    | body =>
      have hregion : ∀ ahead : Option UInt8, ahead ≠ some Byte.dollar →
          ¬ (quote = Byte.doubleQuote ∧ b = Byte.openCurly ∧ ahead = some Byte.dollar) :=
        fun ahead h hregion => h hregion.2.2
      have hquote : some Byte.doubleQuote ≠ some Byte.dollar := by decide
      show next quote b (some Byte.doubleQuote) body = next quote b none body
      rw [next, next, if_neg (hregion _ hquote), if_neg (hregion none nofun)]
    | _ => rfl

end Mode

/-- The closing double quote is found exactly behind what is left of a body. -/
theorem closingFrom?_double_iff (mode : Mode) (valid : mode.Valid) {n : Nat} :
    closingFrom? Byte.doubleQuote 0 mode bs = some n ↔
      ∃ body rest, bs = body ++ Byte.doubleQuote :: rest ∧ body.length = n ∧
        mode.Completes body := by
  induction bs generalizing mode n with
  | nil =>
    refine iff_of_false nofun ?_
    rintro ⟨body, rest, h, -⟩
    cases body <;> cases h
  | cons b bs ih =>
    by_cases hb : mode = .body ∧ b = Byte.doubleQuote
    · obtain ⟨rfl, rfl⟩ := hb
      rw [closingFrom?, if_pos ⟨rfl, rfl⟩]
      constructor
      · rintro ⟨⟩
        exact ⟨[], bs, rfl, rfl, .nil⟩
      · rintro ⟨body, rest, hsplit, rfl, hbody⟩
        cases body with
        | nil => rfl
        | cons c body =>
          obtain ⟨rfl, -⟩ := List.cons.inj hsplit
          exact absurd ⟨rfl, rfl⟩ ((Mode.completes_cons valid).mp hbody).1
    · rw [closingFrom?_cons hb, Option.map_eq_some_iff]
      have hnext := Mode.valid_next valid b bs.head?
      constructor
      · rintro ⟨m, hm, rfl⟩
        obtain ⟨body, rest, rfl, rfl, hbody⟩ := (ih _ hnext).mp hm
        rw [Mode.next_append] at hbody
        exact ⟨b :: body, rest, rfl, Nat.add_comm _ _,
          (Mode.completes_cons valid).mpr ⟨hb, hbody⟩⟩
      · rintro ⟨body, rest, hsplit, rfl, hbody⟩
        cases body with
        | nil =>
          have hmode := (Mode.completes_nil valid).mp hbody
          exact absurd ⟨hmode, (List.cons.inj hsplit).1⟩ hb
        | cons c body =>
          rw [List.cons_append] at hsplit
          obtain ⟨rfl, rfl⟩ := List.cons.inj hsplit
          have hbody := ((Mode.completes_cons valid).mp hbody).2
          refine ⟨body.length, (ih _ hnext).mpr ⟨body, rest, rfl, rfl, ?_⟩, Nat.add_comm _ _⟩
          rw [Mode.next_append]
          exact hbody

/-- The closing double quote is found exactly behind a body. -/
theorem closing?_double_iff {n : Nat} : closing? Byte.doubleQuote bs = some n ↔
    ∃ body rest, bs = body ++ Byte.doubleQuote :: rest ∧ body.length = n ∧ DoubleBody body :=
  closingFrom?_double_iff .body trivial

end Quoted

namespace Cursor

/-- At offset `p` stands a double quote, and a body between double quotes lies between the cursor
and it. -/
def ClosesDouble (c : Cursor) (p : Nat) : Prop :=
  c.offset ≤ p ∧ c.source[p]? = some Byte.doubleQuote ∧
    Quoted.DoubleBody ((Span.between c.offset p).slice c.source)

theorem skipQuoted_double_iff (c : Cursor) (p : Nat) :
    (c.skipQuoted Byte.doubleQuote).1 = some p ↔ c.ClosesDouble p := by
  rw [ClosesDouble, cut_iff, skipQuoted_eq_some_iff]
  constructor
  · rintro ⟨n, hn, rfl⟩
    obtain ⟨body, rest, hrest, rfl, hbody⟩ := Quoted.closing?_double_iff.mp hn
    exact ⟨body, rest, hrest, rfl, hbody⟩
  · rintro ⟨body, rest, hrest, rfl, hbody⟩
    exact ⟨body.length, Quoted.closing?_double_iff.mpr ⟨body, rest, hrest, rfl, hbody⟩, rfl⟩

/-- From any place of any source the reader finds exactly the double quote that has a body before
it, of which there is at most one, and stops behind it; where there is none it stops at the end. -/
theorem skipQuoted_double (c : Cursor) :
    let skipped := c.skipQuoted Byte.doubleQuote
    (∀ p, skipped.1 = some p ↔ c.ClosesDouble p) ∧
      (∀ p q, c.ClosesDouble p → c.ClosesDouble q → p = q) ∧
      (∀ p, skipped.1 = some p → skipped.2.offset = p + 1) ∧
      ((∀ p, ¬ c.ClosesDouble p) → skipped.1 = none ∧ skipped.2.offset = c.source.length) := by
  obtain ⟨hfound, hopen⟩ := c.offset_skipQuoted Byte.doubleQuote
  refine ⟨c.skipQuoted_double_iff, fun p q hp hq => ?_, hfound, fun hnone => ?_⟩
  · rw [← skipQuoted_double_iff] at hp hq
    exact Option.some.inj (hp.symm.trans hq)
  · have h : (c.skipQuoted Byte.doubleQuote).1 = none :=
      Option.eq_none_iff_forall_ne_some.mpr fun p hp =>
        hnone p ((c.skipQuoted_double_iff p).mp hp)
    exact ⟨h, hopen h⟩

end Cursor

end TemplateScript
