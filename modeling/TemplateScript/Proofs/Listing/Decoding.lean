import TemplateScript.Proofs.Listing.Rows

/-!
# Listings have one reading

* `Token.Kind.isLabel_label`, `Segment.Kind.isLabel_label` — the labels of tokens and segments can be
  told from what follows them;
* `Token.Kind.isString_eq_of_label_eq` — a label says whether the text stands between quotes;
* `Listing.tokens_eq_iff` and `Listing.segments_eq_iff` — two listings are the same exactly if they
  list the same lines, labels and bytes;
* `Listing.decodable` — this, and that a listing is printable and has one newline for each item.
-/

namespace TemplateScript

/-! ### Names and spellings -/

namespace Listing

theorem isAlpha_of_mem_name : ∀ word : Keyword, ∀ c ∈ word.name.toList, c.isAlpha = true := by
  intro word
  cases word <;> exact List.all_iff_forall_prop.mp (by decide)

theorem isPrintable_of_mem_spelling :
    ∀ op : Operator, ∀ c ∈ op.spelling.toList, IsPrintable c ∧ c ≠ '`' := by
  intro op
  cases op <;> exact List.all_iff_forall_prop.mp (by decide)

theorem isPrintable_of_isAlpha {c : Char} (h : c.isAlpha = true) : IsPrintable c ∧ c ≠ ' ' := by
  have hrange : 'A'.toNat ≤ c.toNat ∧ c.toNat ≤ 'z'.toNat := by
    rcases Bool.or_eq_true_iff.mp h with hupper | hlower
    · obtain ⟨hlow, hhigh⟩ : 'A'.val ≤ c.val ∧ c.val ≤ 'Z'.val := of_decide_eq_true hupper
      exact ⟨hlow, Nat.le_trans hhigh (by decide)⟩
    · have hbounds : (decide ('a'.val ≤ c.val) && decide (c.val ≤ 'z'.val)) = true := hlower
      simp only [Bool.and_eq_true, decide_eq_true_eq] at hbounds
      exact ⟨Nat.le_trans (by decide) hbounds.1, hbounds.2⟩
  refine ⟨⟨Nat.le_trans (by decide) hrange.1, Nat.le_trans hrange.2 (by decide)⟩, ?_⟩
  rintro rfl
  revert hrange
  decide

end Listing

open Listing

/-! ### Labels -/

namespace Token.Kind

theorem toList_label_keyword (word : Keyword) :
    (keyword word).label.toList = "Keyword(".toList ++ (word.name.toList ++ [')']) := by
  rw [label, String.toList_append, String.toList_append, List.append_assoc]
  rfl

theorem toList_label_operator (op : Operator) :
    (operator op).label.toList = "Operator".toList ++ ' ' :: '`' :: (op.spelling.toList ++ ['`']) := by
  rw [label, String.toList_append, String.toList_append, List.append_assoc]
  rfl

theorem toList_label_operatorWord (op : Operator) :
    (operatorWord op).label.toList =
      "OperatorWord".toList ++ ' ' :: '`' :: (op.spelling.toList ++ ['`']) := by
  rw [label, String.toList_append, String.toList_append, List.append_assoc]
  rfl

theorem isLabel_label (kind : Token.Kind) : IsLabel kind.label.toList := by
  cases kind with
  | keyword word =>
    rw [toList_label_keyword]
    refine .word (fun hspace => ?_) (fun hmem => ?_)
    · rcases List.mem_append.mp hspace with h | h
      · revert h
        decide
      · rcases List.mem_append.mp h with h | h
        · exact (isPrintable_of_isAlpha (isAlpha_of_mem_name word _ h)).2 rfl
        · revert h
          decide
    · -- the two words begin with another letter
      have hhead : ∀ word ∈ spelledWords, word.head? = some 'O' := by decide
      cases hhead _ hmem
  | operator op =>
    rw [toList_label_operator]
    exact .spelled (by decide) fun h => (isPrintable_of_mem_spelling op _ h).2 rfl
  | operatorWord op =>
    rw [toList_label_operatorWord]
    exact .spelled (by decide) fun h => (isPrintable_of_mem_spelling op _ h).2 rfl
  | _ => exact .word (by decide) (by decide)

theorem isPrintable_of_mem_label (kind : Token.Kind) : ∀ c ∈ kind.label.toList, IsPrintable c := by
  have hlist : ∀ {cs : List Char}, cs.all (fun c => decide (IsPrintable c)) = true →
      ∀ c ∈ cs, IsPrintable c := List.all_iff_forall_prop.mp
  have hspelled : ∀ op : Operator, ∀ c ∈ ' ' :: '`' :: (op.spelling.toList ++ ['`']),
      IsPrintable c := by
    intro op
    refine List.forall_mem_cons.mpr ⟨by decide, List.forall_mem_cons.mpr ⟨by decide, ?_⟩⟩
    refine List.forall_mem_append.mpr ⟨fun c hc => ?_, hlist (by decide)⟩
    exact (isPrintable_of_mem_spelling op c hc).1
  cases kind with
  | keyword word =>
    rw [toList_label_keyword]
    refine List.forall_mem_append.mpr ⟨hlist (by decide), List.forall_mem_append.mpr
      ⟨fun c hc => ?_, hlist (by decide)⟩⟩
    exact (isPrintable_of_isAlpha (isAlpha_of_mem_name word c hc)).1
  | operator op =>
    rw [toList_label_operator]
    exact List.forall_mem_append.mpr ⟨hlist (by decide), hspelled op⟩
  | operatorWord op =>
    rw [toList_label_operatorWord]
    exact List.forall_mem_append.mpr ⟨hlist (by decide), hspelled op⟩
  | _ => exact hlist (by decide)

/-- The labels of literals. -/
def stringLabels : List String :=
  ["SingleQuotedString", "DoubleQuotedString", "BacktickString", "Heredoc", "Nowdoc"]

theorem isString_iff_mem_stringLabels (kind : Token.Kind) :
    kind.isString = true ↔ kind.label ∈ stringLabels := by
  have hhead : ∀ label ∈ stringLabels,
      label.toList.head? ≠ some 'K' ∧ label.toList.head? ≠ some 'O' := by
    decide
  cases kind with
  | keyword word =>
    refine ⟨nofun, fun h => absurd ?_ (hhead _ h).1⟩
    rw [toList_label_keyword]
    rfl
  | operator op =>
    refine ⟨nofun, fun h => absurd ?_ (hhead _ h).2⟩
    rw [toList_label_operator]
    rfl
  | operatorWord op =>
    refine ⟨nofun, fun h => absurd ?_ (hhead _ h).2⟩
    rw [toList_label_operatorWord]
    rfl
  | _ => decide

/-- A label says whether the text stands between quotes. -/
theorem isString_eq_of_label_eq {kind kind' : Token.Kind} (h : kind.label = kind'.label) :
    kind.isString = kind'.isString := by
  rw [Bool.eq_iff_iff, isString_iff_mem_stringLabels, isString_iff_mem_stringLabels, h]

end Token.Kind

namespace Segment.Kind

theorem isLabel_label (kind : Segment.Kind) : IsLabel kind.label.toList := by
  cases kind <;> exact .word (by decide) (by decide)

theorem isPrintable_of_mem_label (kind : Segment.Kind) : ∀ c ∈ kind.label.toList, IsPrintable c := by
  cases kind <;> exact List.all_iff_forall_prop.mp (by decide)

theorem eq_of_label_eq {kind kind' : Segment.Kind} (h : kind.label = kind'.label) :
    kind = kind' := by
  revert h
  cases kind <;> cases kind' <;> decide

end Segment.Kind

/-! ### The listings -/

namespace Listing

variable {source source' document document' : Bytes} {s t : List Char}

theorem isPrintable_of_mem_tokenText {token : Token} {c : Char} (h : c ∈ tokenText source token) :
    IsPrintable c := by
  rw [tokenText] at h
  split at h
  · simp only [List.mem_append, List.mem_singleton] at h
    rcases h with (rfl | h) | rfl
    · decide
    · exact isPrintable_of_mem_escape h
    · decide
  · exact isPrintable_of_mem_escape h

/-- With the same label, tokens of the same printed text have the same bytes. -/
theorem textIn_eq_of_tokenText {token token' : Token} (label : token.kind.label = token'.kind.label)
    (h : tokenText source token = tokenText source' token') :
    token.textIn source = token'.textIn source' := by
  rw [tokenText, tokenText, Token.Kind.isString_eq_of_label_eq label] at h
  split at h
  · rw [List.append_assoc, List.append_assoc] at h
    exact escape_inj.mp (List.append_cancel_right (List.append_cancel_left h))
  · exact escape_inj.mp h

/-- Two listings of tokens are the same exactly if they list tokens of the same lines, labels and
bytes. -/
theorem tokens_eq_iff (tokens₁ tokens₂ : List Token) :
    tokens source tokens₁ = tokens source' tokens₂ ↔
      List.Forall₂ (fun t u => t.line = u.line ∧ t.kind.label = u.kind.label ∧
        t.textIn source = u.textIn source') tokens₁ tokens₂ := by
  rw [tokens, tokens, String.ofList_inj]
  refine flatMap_eq_flatMap_iff ?_ ?_ (fun _ => ?_) (fun _ => ?_) tokens₁ tokens₂
  · rintro t u ⟨hline, hlabel, htext⟩
    rw [tokenRow, tokenRow, tokenText, tokenText, hline, hlabel, htext,
      Token.Kind.isString_eq_of_label_eq hlabel]
  · intro t u s s' h
    obtain ⟨hline, hlabel, htext, hrest⟩ := row_append_inj t.kind.isLabel_label u.kind.isLabel_label
      (newline_not_mem fun _ => isPrintable_of_mem_tokenText)
      (newline_not_mem fun _ => isPrintable_of_mem_tokenText) h
    exact ⟨⟨hline, hlabel, textIn_eq_of_tokenText hlabel htext⟩, hrest⟩
  · exact List.append_ne_nil_of_right_ne_nil _ (List.cons_ne_nil _ _)
  · exact List.append_ne_nil_of_right_ne_nil _ (List.cons_ne_nil _ _)

/-- Two listings of segments are the same exactly if they list segments of the same lines, kinds and
bytes. -/
theorem segments_eq_iff (segments₁ segments₂ : List Segment) :
    segments document segments₁ = segments document' segments₂ ↔
      List.Forall₂ (fun s t => s.startLine = t.startLine ∧ s.kind = t.kind ∧
        s.textIn document = t.textIn document') segments₁ segments₂ := by
  rw [segments, segments, String.ofList_inj]
  refine flatMap_eq_flatMap_iff ?_ ?_ (fun _ => ?_) (fun _ => ?_) segments₁ segments₂
  · rintro s t ⟨hline, hkind, htext⟩
    rw [segmentRow, segmentRow, hline, hkind, htext]
  · intro s t u v h
    obtain ⟨hline, hlabel, htext, hrest⟩ := row_append_inj s.kind.isLabel_label t.kind.isLabel_label
      (newline_not_mem fun _ => isPrintable_of_mem_escape)
      (newline_not_mem fun _ => isPrintable_of_mem_escape) h
    exact ⟨⟨hline, Segment.Kind.eq_of_label_eq hlabel, escape_inj.mp htext⟩, hrest⟩
  · exact List.append_ne_nil_of_right_ne_nil _ (List.cons_ne_nil _ _)
  · exact List.append_ne_nil_of_right_ne_nil _ (List.cons_ne_nil _ _)

/-- A listing can be read back: whatever the sources, two listings of tokens are the same exactly if
they have as many items and these agree one by one in line, label and bytes, and so are two listings
of segments, where the label tells the kind.  A listing is printable ASCII, but for one newline for
each item. -/
theorem decodable :
    (∀ source source' tokens₁ tokens₂, tokens source tokens₁ = tokens source' tokens₂ ↔
        List.Forall₂ (fun t u => t.line = u.line ∧ t.kind.label = u.kind.label ∧
          t.textIn source = u.textIn source') tokens₁ tokens₂) ∧
      (∀ document document' segments₁ segments₂,
        segments document segments₁ = segments document' segments₂ ↔
          List.Forall₂ (fun s t => s.startLine = t.startLine ∧ s.kind = t.kind ∧
            s.textIn document = t.textIn document') segments₁ segments₂) ∧
      (∀ source listed, IsListing listed.length (tokens source listed)) ∧
      ∀ document listed, IsListing listed.length (segments document listed) := by
  refine ⟨fun _ _ => tokens_eq_iff, fun _ _ => segments_eq_iff, fun source => ?_,
    fun document => ?_⟩
  · exact isListing_flatMap fun t =>
      exists_row t.line 24 t.kind.isPrintable_of_mem_label fun _ => isPrintable_of_mem_tokenText
  · exact isListing_flatMap fun s =>
      exists_row s.startLine 4 s.kind.isPrintable_of_mem_label fun _ => isPrintable_of_mem_escape

/-- A label wider than its column, before a text that begins with a space. -/
example :
    let source := [0x20, 0x5C, 0x0A]
    tokens source [⟨.operatorWord .instanceOf, ⟨0, 3⟩, .ofNat 12345, none⟩] =
      "12345 OperatorWord `instanceof`  \\\\\\n\n" := by
  decide +kernel

end Listing

end TemplateScript
