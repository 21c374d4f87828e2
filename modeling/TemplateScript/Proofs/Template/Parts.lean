import TemplateScript.Proofs.Template.Segments

/-!
# The parts of a block

`Template.Parts rule bs` is a way to read `bs` as an opening tag, white space, a script, white space
again, the closing tag that is found, and the rest of the document.

* `Template.exists_parts` — the block at an opening tag has these parts: its span is all of them
  but the rest, and its text is the script.
-/

namespace TemplateScript.Template

variable {rule : DelimiterRule} {tag : Cursor} {bs : Bytes}

/-- The parts of the block whose opening tag stands at the start of `bs`. -/
structure Parts (rule : DelimiterRule) (bs : Bytes) where
  php : Bytes
  space : Bytes
  script : Bytes
  trail : Bytes
  close : Bytes
  rest : Bytes
  eq : bs = ascii "<?" ++ (php ++ (space ++ (script ++ (trail ++ (close ++ rest)))))
  /-- `php` is taken whenever it comes next. -/
  word : php.map Byte.toLower = ascii "php" ∨
    php = [] ∧ ((bs.drop 2).take 3).map Byte.toLower ≠ ascii "php"
  spaces : ∀ b ∈ space, Byte.isSpace b = true
  /-- The white space before the script is all there is. -/
  starts : ∀ b, (script ++ (trail ++ (close ++ rest))).head? = some b → Byte.isSpace b = false
  trails : ∀ b ∈ trail, Byte.isTrailingSpace b = true
  trimmed : ∀ b, script.getLast? = some b → Byte.isTrailingSpace b = false
  /-- The block ends with the closing tag that is found, or with the document. -/
  closes : close = ascii "?>" ∧
      closeTag? rule (script ++ (trail ++ (close ++ rest))) = some (script ++ trail).length ∨
    close = [] ∧ rest = [] ∧ closeTag? rule (script ++ (trail ++ (close ++ rest))) = none

namespace Parts

/-- All that stands before the script. -/
def opening (parts : Parts rule bs) : Bytes := ascii "<?" ++ (parts.php ++ parts.space)

/-- All bytes of the block. -/
def whole (parts : Parts rule bs) : Bytes :=
  parts.opening ++ (parts.script ++ (parts.trail ++ parts.close))

theorem eq_whole (parts : Parts rule bs) : bs = parts.whole ++ parts.rest := by
  rw [whole, opening]
  simp only [List.append_assoc]
  exact parts.eq

/-- Behind the opening comes the script, and what the search for the closing tag goes through. -/
theorem drop_opening (parts : Parts rule bs) :
    bs.drop parts.opening.length =
      parts.script ++ (parts.trail ++ (parts.close ++ parts.rest)) := by
  have hsplit : bs = parts.opening ++
      (parts.script ++ (parts.trail ++ (parts.close ++ parts.rest))) := by
    rw [opening, List.append_assoc, List.append_assoc]
    exact parts.eq
  exact (congrArg (List.drop _) hsplit).trans List.drop_append_length

theorem length_whole_pos (parts : Parts rule bs) : 0 < parts.whole.length := by
  rw [whole, opening, List.append_assoc, List.length_append]
  exact Nat.lt_of_lt_of_le (by decide : 0 < (ascii "<?").length) (Nat.le_add_right _ _)

/-- In a document, the text of the block begins there. -/
theorem drop_text {document : Bytes} {start : Nat} (parts : Parts rule (document.drop start)) :
    document.drop (start + parts.opening.length) =
      parts.script ++ (parts.trail ++ (parts.close ++ parts.rest)) := by
  rw [← List.drop_drop]
  exact parts.drop_opening

theorem stop_le {document : Bytes} {start : Nat} (parts : Parts rule (document.drop start)) :
    start + parts.opening.length + parts.script.length ≤ document.length := by
  have hlength := congrArg List.length parts.eq_whole
  have hpos := parts.length_whole_pos
  rw [whole] at hlength hpos
  simp only [List.length_append, List.length_drop] at hlength hpos
  omega

end Parts

/-! ### The opening tag -/

theorem exists_php (after : Bytes) :
    ∃ php rest, after = php ++ rest ∧ openTagLength (ascii "<?" ++ after) = 2 + php.length ∧
      (php.map Byte.toLower = ascii "php" ∨
        php = [] ∧ (after.take 3).map Byte.toLower ≠ ascii "php") := by
  have hdrop : (ascii "<?" ++ after).drop 2 = after := rfl
  rw [openTagLength, hdrop]
  by_cases hword : (after.take 3).map Byte.toLower = ascii "php"
  · rw [if_pos hword]
    refine ⟨after.take 3, after.drop 3, (List.take_append_drop 3 after).symm, ?_, Or.inl hword⟩
    have hlen := congrArg List.length hword
    rw [List.length_map] at hlen
    rw [hlen]
    rfl
  · rw [if_neg hword]
    exact ⟨[], after, rfl, rfl, Or.inr ⟨rfl, hword⟩⟩

theorem exists_space (bs : Bytes) :
    ∃ space rest, bs = space ++ rest ∧ space.length = Bytes.runLength Byte.isSpace bs ∧
      (∀ b ∈ space, Byte.isSpace b = true) ∧ ∀ b, rest.head? = some b → Byte.isSpace b = false :=
  ⟨bs.take (Bytes.runLength Byte.isSpace bs), bs.drop (Bytes.runLength Byte.isSpace bs),
    (List.take_append_drop _ _).symm, List.length_take_of_le (Bytes.runLength_le _ _),
    fun _ hb => Bytes.of_mem_take_runLength hb, fun _ hb => Bytes.of_head?_drop_runLength hb⟩

/-! ### The closing tag -/

theorem exists_script (rule : DelimiterRule) (bs : Bytes) :
    ∃ content close rest, bs = content ++ (close ++ rest) ∧
      content.length = (closeTag? rule bs).getD bs.length ∧
      (close = ascii "?>" ∧ closeTag? rule bs = some content.length ∨
        close = [] ∧ rest = [] ∧ closeTag? rule bs = none) := by
  cases h : closeTag? rule bs with
  | none => exact ⟨bs, [], [], by simp, rfl, Or.inr ⟨rfl, rfl, rfl⟩⟩
  | some n =>
    obtain ⟨content, rest, hbs, rfl⟩ := exists_closeTag h
    exact ⟨content, ascii "?>", rest, hbs, rfl, Or.inl ⟨rfl, rfl⟩⟩

/-! ### The block -/

/-- The cursor at the script stands behind the opening tag and the white space after it. -/
theorem openBlock_eq {php space script : Bytes}
    (hrest : tag.rest = ascii "<?" ++ (php ++ (space ++ script)))
    (hopen : openTagLength tag.rest = 2 + php.length)
    (hspace : space.length = Bytes.runLength Byte.isSpace (space ++ script)) :
    openBlock tag = tag.advanceBy (ascii "<?" ++ (php ++ space)).length := by
  have hdrop : tag.rest.drop (2 + php.length) = space ++ script := by
    rw [hrest, ← List.drop_drop]
    exact List.drop_append_length
  show (tag.advanceBy (openTagLength tag.rest)).advanceBy
    (Bytes.runLength Byte.isSpace (tag.rest.drop (openTagLength tag.rest))) = _
  rw [hopen, hdrop, ← hspace, Cursor.advanceBy_advanceBy]
  congr 1
  simp only [List.length_append]
  show _ = 2 + _
  omega

/-- The block whose script comes `opening.length` bytes after the cursor. -/
theorem block_eq {opening content : Bytes} (hrest : tag.rest = opening ++ content)
    (hopen : openBlock tag = tag.advanceBy opening.length) :
    block rule tag =
      { kind := .code
        span := ⟨tag.offset,
          min (opening.length + ((closeTag? rule content).getD content.length + 2))
            (opening.length + content.length)⟩
        text := ⟨tag.offset + opening.length, Bytes.trimmedLength
          (content.take ((closeTag? rule content).getD content.length))⟩
        startLine := (openBlock tag).line } := by
  have hle : opening.length ≤ tag.rest.length := by
    rw [hrest, List.length_append]
    exact Nat.le_add_right _ _
  have hcontent : (openBlock tag).rest = content := by
    rw [hopen, Cursor.rest_advanceBy, hrest, List.drop_append_length]
  have hoffset : (openBlock tag).offset = tag.offset + opening.length := by
    rw [hopen, Cursor.offset_advanceBy_of_le hle]
  have hscript : scriptLength rule (openBlock tag) = (closeTag? rule content).getD content.length := by
    rw [scriptLength, Cursor.remaining, hcontent]
  have hsource := tag.length_rest
  have hoffset_le := tag.offset_le
  rw [hrest, List.length_append] at hsource
  have hclose : (closeBlock rule (openBlock tag)).offset = tag.offset +
      min (opening.length + ((closeTag? rule content).getD content.length + 2))
        (opening.length + content.length) := by
    have hsame : (openBlock tag).source = tag.source := by rw [hopen, Cursor.source_advanceBy]
    rw [closeBlock, Cursor.offset_advanceBy, hoffset, hscript, hsame]
    omega
  show Segment.mk .code (.between tag.offset (closeBlock rule (openBlock tag)).offset)
    ⟨(openBlock tag).offset, Bytes.trimmedLength
      ((openBlock tag).rest.take (scriptLength rule (openBlock tag)))⟩ _ = _
  rw [hclose, hoffset, hcontent, hscript, Span.between, Nat.add_sub_cancel_left]

/-- The block at an opening tag has the parts of a block. -/
theorem exists_parts (rule : DelimiterRule) (opens : ascii "<?" <+: tag.rest) :
    ∃ parts : Parts rule tag.rest, block rule tag =
      { kind := .code
        span := ⟨tag.offset, parts.whole.length⟩
        text := ⟨tag.offset + parts.opening.length, parts.script.length⟩
        startLine := (openBlock tag).line } := by
  obtain ⟨after, hafter⟩ := opens
  obtain ⟨php, rest₁, rfl, hopen, hphp⟩ := exists_php after
  obtain ⟨space, rest₂, rfl, hspace, hspaces, hstarts⟩ := exists_space rest₁
  obtain ⟨content, close, rest, hcontent, hlength, hclose⟩ := exists_script rule rest₂
  obtain ⟨script, trail, rfl, hscript, htrails, htrimmed⟩ := Bytes.exists_trim content
  have hbs : rest₂ = script ++ (trail ++ (close ++ rest)) := by rw [hcontent, List.append_assoc]
  rw [hafter] at hopen
  have hblock := openBlock_eq hafter.symm hopen hspace
  have hrest : tag.rest = ascii "<?" ++ (php ++ space) ++ rest₂ := by
    rw [← hafter]
    simp only [List.append_assoc]
  refine ⟨⟨php, space, script, trail, close, rest, ?_, ?_, hspaces, ?_, htrails, htrimmed, ?_⟩, ?_⟩
  · rw [← hafter, hbs]
  · rw [← hafter]
    exact hphp
  · rw [← hbs]
    exact hstarts
  · rw [← hbs]
    exact hclose
  · have htake : rest₂.take ((closeTag? rule rest₂).getD rest₂.length) = script ++ trail := by
      rw [← hlength, hcontent, List.take_append_length]
    rw [block_eq hrest hblock, htake, ← hscript, ← hlength]
    congr 2
    simp only [Parts.whole, Parts.opening, List.length_append, hcontent]
    rcases hclose with ⟨rfl, -⟩ | ⟨rfl, rfl, -⟩
    · have htwo : (ascii "?>").length = 2 := rfl
      omega
    · rw [List.length_nil]
      omega

end TemplateScript.Template
