import TemplateScript.Proofs.Heredoc.Grammar
import TemplateScript.Proofs.Lexer.Dispatch
import TemplateScript.Proofs.Marks

/-!
# Heredocs read by the lexer

What a step makes of `<<<`:

* `Lexer.step_of_closing` and `Lexer.step_of_open` — behind an opening line, a token up to the first
  line that closes the body, or up to the end of the input, where a strict lexer fails;
* `Lexer.step_of_not_opens` — anything else is a fault for a strict lexer that sees a heredoc begin,
  and the operator `<<` otherwise;
* `Lexer.step_heredoc` — the three together, and that a heredoc is read exactly where one opens.
-/

namespace TemplateScript

/-- Before a third `<`, two of them are a symbol. -/
theorem Lexeme.symbol_shift (bs : Bytes) :
    Lexeme.symbol Byte.less (Byte.less :: Byte.less :: bs) = .whole (.symbol (ascii "<<")) 2 := by
  have hlength : Symbol.length (Byte.less :: Byte.less :: Byte.less :: bs) = 2 := by
    rw [Symbol.length_shift]
    rfl
  show Lexeme.candidate (Byte.less :: Byte.less :: Byte.less :: bs) = _
  rw [Lexeme.candidate, hlength]
  rfl

theorem Heredoc.kind_opener (opener : Heredoc.Opener) :
    opener.kind = .heredoc ∨ opener.kind = .nowdoc := by
  rw [Opener.kind]
  cases opener.isNowdoc
  · exact Or.inl rfl
  · exact Or.inr rfl

namespace Lexer

variable {l : Lexer} {gap opening body bs : Bytes} {opener : Heredoc.Opener}

/-- A heredoc that a line closes is a token, and the lexer goes on behind the delimiter of that line
and the horizontal space after it. -/
theorem step_of_closing {line : Nat} {blank : Bytes}
    (h : l.Meets gap (ascii "<<<" ++ (opening ++ body)))
    (opens : Heredoc.OpenerLine l.options.delimiters opener opening)
    (closing : Heredoc.IsClosing opener.delimiter body line blank) (resolve : Resolver) :
    ∃ text, Bytes.Trims (body.take (line - 1)) text ∧
      (l.step resolve).answer = .ok (.emit
        { kind := opener.kind
          text := ⟨l.offset + gap.length + (3 + opening.length), text.length⟩
          line := l.line.after gap }) ∧
      (l.step resolve).lexer.offset = l.offset + gap.length + (3 + opening.length) +
        (line + opener.delimiter.length + blank.length) := by
  obtain ⟨text, htrims, hscan⟩ := Heredoc.scan?_of_closing opens closing
  obtain ⟨hanswer, hoffset⟩ :=
    Meets.step_of_lexeme h (Construct.scan_of_heredoc hscan) resolve
  refine ⟨text, htrims, hanswer, ?_⟩
  rw [hoffset, Nat.add_assoc _ (3 + opening.length)]

/-- A heredoc that no line closes is a fault, or a token up to the end. -/
theorem step_of_open (h : l.Meets gap (ascii "<<<" ++ (opening ++ body)))
    (opens : Heredoc.OpenerLine l.options.delimiters opener opening)
    (unclosed : ∀ m, Heredoc.IsLineStart body m → ∀ blank,
      ¬ Heredoc.ClosesWith opener.delimiter blank (body.drop m)) (resolve : Resolver) :
    (l.options.isStrict = true → (l.step resolve).answer =
      .error ⟨.fault .unterminatedString, l.offset + gap.length, l.line.after gap⟩) ∧
    (l.options.isStrict = false → ∃ text, Bytes.Trims body text ∧
      (l.step resolve).answer = .ok (.emit
        { kind := opener.kind
          text := ⟨l.offset + gap.length + (3 + opening.length), text.length⟩
          line := l.line.after gap }) ∧
      (l.step resolve).lexer.offset = l.cursor.source.length) := by
  obtain ⟨hstrict, hlenient⟩ := Heredoc.scan?_of_open opens unclosed
  constructor
  · intro strict
    exact Meets.step_of_fault h (Construct.scan_of_heredoc (hstrict strict)) resolve
  · intro lenient
    obtain ⟨text, htrims, hscan⟩ := hlenient lenient
    obtain ⟨hanswer, hoffset⟩ :=
      Meets.step_of_lexeme h (Construct.scan_of_heredoc hscan) resolve
    refine ⟨text, htrims, hanswer, ?_⟩
    have hrest := l.cursor.length_rest
    have hle := l.cursor.offset_le
    rw [h.rest, List.length_append, List.length_append] at hrest
    rw [hoffset, offset]
    show _ + (3 + _) = _
    have hmarks : (ascii "<<<").length = 3 := rfl
    omega

/-- Where no heredoc opens, a strict lexer fails if one begins; otherwise a step reads `<<`. -/
theorem step_of_not_opens (h : l.Meets gap (ascii "<<<" ++ bs))
    (closed : ¬ ∃ opener opening body, bs = opening ++ body ∧
      Heredoc.OpenerLine l.options.delimiters opener opening) (resolve : Resolver) :
    (l.options.isStrict = true ∧ Heredoc.Begins l.options.delimiters bs →
      (l.step resolve).answer =
        .error ⟨.fault .invalidHeredocDelimiter, l.offset + gap.length, l.line.after gap⟩) ∧
    (¬ (l.options.isStrict = true ∧ Heredoc.Begins l.options.delimiters bs) →
      (l.step resolve).answer = .ok (.emit
        (match resolve ⟨ascii "<<", l.lookback.latest⟩ with
        | some op => .ofOperator (.operator op) ⟨l.offset + gap.length, 2⟩ (l.line.after gap) op
        | none =>
          { kind := .other, text := ⟨l.offset + gap.length, 2⟩, line := l.line.after gap })) ∧
      (l.step resolve).lexer.offset = l.offset + gap.length + 2) := by
  obtain ⟨hfault, hnone⟩ := Heredoc.scan?_of_not_opens closed
  constructor
  · intro hbegins
    obtain ⟨length, hscan⟩ := hfault hbegins
    exact Meets.step_of_fault h (Construct.scan_of_heredoc hscan) resolve
  · intro hfree
    have hscan : Construct.scan l.options Byte.less (Byte.less :: Byte.less :: bs) =
        .lexeme (.whole (.symbol (ascii "<<")) 2) := by
      rw [← Lexeme.symbol_shift bs]
      refine Construct.scan_less fun bs' hbs => ?_
      obtain rfl : bs = bs' := (List.cons.inj (List.cons.inj hbs).2).2
      exact hnone hfree
    obtain ⟨hanswer, hoffset⟩ := Meets.step_of_lexeme h hscan resolve
    refine ⟨?_, hoffset⟩
    rw [hanswer]
    show Except.ok (match resolve ⟨ascii "<<", l.lookback.latest⟩ with
      | some op => Edit.emit _
      | none => Edit.emit _) = _
    cases resolve ⟨ascii "<<", l.lookback.latest⟩ <;> rfl

/-- A step that comes to `<<<` reads a heredoc, or fails for the want of its end, exactly where an
opening line follows.  The token then ends with the first line that closes the body, or else, for a
lenient lexer, with the input.  Without an opening line a strict lexer fails where a heredoc begins,
and otherwise the step reads the operator `<<`. -/
theorem step_heredoc (h : l.Meets gap (ascii "<<<" ++ bs)) (resolve : Resolver) :
    let place := l.offset + gap.length
    let line := l.line.after gap
    let turn := l.step resolve
    let opens := fun opener opening body =>
      bs = opening ++ body ∧ Heredoc.OpenerLine l.options.delimiters opener opening
    ((∃ edit, turn.answer = .ok edit ∧
          (edit.token.kind = .heredoc ∨ edit.token.kind = .nowdoc)) ∨
        (∃ e, turn.answer = .error e ∧ e.cause = .fault .unterminatedString) ↔
      ∃ opener opening body, opens opener opening body) ∧
    (∀ opener opening body, opens opener opening body →
      (∀ closing blank, Heredoc.IsClosing opener.delimiter body closing blank →
        ∃ text, Bytes.Trims (body.take (closing - 1)) text ∧
          turn.answer = .ok (.emit { kind := opener.kind
                                     text := ⟨place + (3 + opening.length), text.length⟩
                                     line := line }) ∧
          turn.lexer.offset = place + (3 + opening.length) +
            (closing + opener.delimiter.length + blank.length)) ∧
      ((∀ m, Heredoc.IsLineStart body m → ∀ blank,
          ¬ Heredoc.ClosesWith opener.delimiter blank (body.drop m)) →
        (l.options.isStrict = true →
          turn.answer = .error ⟨.fault .unterminatedString, place, line⟩) ∧
        (l.options.isStrict = false → ∃ text, Bytes.Trims body text ∧
          turn.answer = .ok (.emit { kind := opener.kind
                                     text := ⟨place + (3 + opening.length), text.length⟩
                                     line := line }) ∧
          turn.lexer.offset = l.cursor.source.length))) ∧
    ((¬ ∃ opener opening body, opens opener opening body) →
      (l.options.isStrict = true ∧ Heredoc.Begins l.options.delimiters bs →
        turn.answer = .error ⟨.fault .invalidHeredocDelimiter, place, line⟩) ∧
      (¬ (l.options.isStrict = true ∧ Heredoc.Begins l.options.delimiters bs) →
        turn.answer = .ok (.emit
          (match resolve ⟨ascii "<<", l.lookback.latest⟩ with
          | some op => .ofOperator (.operator op) ⟨place, 2⟩ line op
          | none => { kind := .other, text := ⟨place, 2⟩, line := line })) ∧
        turn.lexer.offset = place + 2)) := by
  intro place line turn opens
  refine ⟨⟨?_, ?_⟩, ?_, fun closed => step_of_not_opens h closed resolve⟩
  · intro hheredoc
    by_contra closed
    obtain ⟨hfault, hsymbol⟩ := step_of_not_opens h closed resolve
    by_cases hbegins : l.options.isStrict = true ∧ Heredoc.Begins l.options.delimiters bs
    · rcases hheredoc with ⟨edit, hedit, -⟩ | ⟨e, he, hcause⟩
      · cases hedit.symm.trans (hfault hbegins)
      · obtain rfl := Except.error.inj (he.symm.trans (hfault hbegins))
        cases hcause
    · have hanswer := (hsymbol hbegins).1
      rcases hheredoc with ⟨edit, hedit, hkind⟩ | ⟨e, he, -⟩
      · obtain rfl := Except.ok.inj (hedit.symm.trans hanswer)
        -- the kind of a symbol is an operator or none of the named kinds
        cases hresolve : resolve ⟨ascii "<<", l.lookback.latest⟩ with
        | none => rw [hresolve] at hkind; rcases hkind with hkind | hkind <;> cases hkind
        | some op => rw [hresolve] at hkind; rcases hkind with hkind | hkind <;> cases hkind
      · cases he.symm.trans hanswer
  · rintro ⟨opener, opening, body, rfl, hopening⟩
    rcases Heredoc.exists_isClosing_or opener.delimiter body with
      ⟨closing, blank, hclosing⟩ | unclosed
    · obtain ⟨text, -, hanswer, -⟩ := step_of_closing h hopening hclosing resolve
      exact Or.inl ⟨_, hanswer, Heredoc.kind_opener opener⟩
    · obtain ⟨hstrict, hlenient⟩ := step_of_open h hopening unclosed resolve
      cases hending : l.options.isStrict with
      | true => exact Or.inr ⟨_, hstrict hending, rfl⟩
      | false =>
        obtain ⟨text, -, hanswer, -⟩ := hlenient hending
        exact Or.inl ⟨_, hanswer, Heredoc.kind_opener opener⟩
  · rintro opener opening body ⟨rfl, hopening⟩
    exact ⟨fun closing blank hclosing => step_of_closing h hopening hclosing resolve,
      fun unclosed => step_of_open h hopening unclosed resolve⟩

/-- A nowdoc with a line that only begins with its delimiter, and a space before the `;`. -/
theorem step_heredoc_nowdoc :
    let l := Lexer.start (ascii " <<<'E'\n a \nE x\nE ;\n") {}
    l.Meets (ascii " ") (ascii "<<<" ++ ascii "'E'\n a \nE x\nE ;\n") ∧
      ∃ text, Bytes.Trims (ascii " a \nE x") text ∧
        (l.step .standard).answer =
          .ok (.emit { kind := .nowdoc, text := ⟨8, text.length⟩, line := .first }) ∧
        (l.step .standard).lexer.offset = 18 := by
  intro l
  have hmeets : l.Meets (ascii " ") (ascii "<<<" ++ ascii "'E'\n a \nE x\nE ;\n") :=
    ⟨rfl, by decide +kernel⟩
  have hopens : Heredoc.OpenerLine .relaxed ⟨ascii "E", true, 4⟩ (ascii "'E'\n") := by
    refine ⟨⟨[], some Byte.singleQuote, ascii "E'\n", rfl, nofun, ?_, ⟨?_, ?_⟩, rfl⟩, rfl⟩
    · intro q hq
      exact Or.inl (Option.some.inj hq).symm
    · exact ⟨⟨0x45, rfl, rfl⟩, .byte rfl .nil⟩
    · exact ⟨[Byte.singleQuote], [], rfl, Or.inr rfl, nofun⟩
  have hcloses : Heredoc.firstLine? (Heredoc.closingLength? (ascii "E"))
      (ascii " a \nE x\nE ;\n") = some (8, 2) := by
    decide +kernel
  obtain ⟨blank, hclosing, hblank⟩ := Heredoc.exists_isClosing hcloses
  obtain ⟨text, htrims, hanswer, hoffset⟩ :=
    ((step_heredoc hmeets .standard).2.1 _ _ _ ⟨rfl, hopens⟩).1 8 blank hclosing
  refine ⟨hmeets, text, htrims, hanswer, hoffset.trans ?_⟩
  show 1 + (3 + 4) + (8 + 1 + blank.length) = 18
  have hone : (ascii "E").length = 1 := rfl
  omega

end Lexer

end TemplateScript
