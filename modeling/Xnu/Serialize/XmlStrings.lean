import Xnu.Serialize.XmlLex

namespace Xnu.Serialize

/-! The strings of the XML format: what `OSString::serialize` writes between
`<string ID="n">` and `</string>` (`escapeXml`, also the text of a `<key>`) is
read back by `getString` of `OSUnserializeXML.y` as the string's characters up
to its NUL, whatever they are, `<`, `>` and `&` included. The escape of each
character decodes to it, and no escape holds the `<` or the NUL at which
`getString` stops. -/

section Escape

theorem escapeXml_nil : escapeXml [] = [] := rfl

theorem escapeXml_cons_zero (str : List UInt8) : escapeXml (0 :: str) = [] := by
  simp [escapeXml]

theorem escapeXml_cons {c : UInt8} (nonzero : c ≠ 0) (str : List UInt8) :
    escapeXml (c :: str) = escapeXml [c] ++ escapeXml str := by
  simp [escapeXml, nonzero]

theorem escapeXml_single {c : UInt8} (nonzero : c ≠ 0) :
    escapeXml [c] = if c = chr '<' then ascii "&lt;" else if c = chr '>' then ascii "&gt;"
      else if c = chr '&' then ascii "&amp;" else [c] := by
  simp [escapeXml, nonzero]

/-- The escape of a character holds neither a NUL nor a `<`. -/
theorem mem_escapeXml_single {c d : UInt8} (nonzero : c ≠ 0) (member : d ∈ escapeXml [c]) :
    d ≠ 0 ∧ d ≠ chr '<' := by
  -- the three entities are fixed texts
  have entities : ∀ e ∈ ascii "&lt;" ++ ascii "&gt;" ++ ascii "&amp;", e ≠ 0 ∧ e ≠ chr '<' := by
    simp [ascii, chr]
  rw [escapeXml_single nonzero] at member
  split_ifs at member with lt
  · exact entities d (by simp [member])
  · exact entities d (by simp [member])
  · exact entities d (by simp [member])
  · rw [List.mem_singleton] at member
    subst member
    exact ⟨nonzero, lt⟩

theorem mem_escapeXml {str : List UInt8} {d : UInt8} (member : d ∈ escapeXml str) : d ≠ 0 ∧ d ≠ chr '<' := by
  induction str with
  | nil => simp [escapeXml_nil] at member
  | cons c str ih =>
    by_cases zero : c = 0
    · subst zero
      simp [escapeXml_cons_zero] at member
    · rw [escapeXml_cons zero, List.mem_append] at member
      rcases member with single | later
      · exact mem_escapeXml_single zero single
      · exact ih later

end Escape

section GetString

/-- The entity decoding of `getString` turns the escape of a character back
into it. -/
theorem getStringEntities_escapeXml_single {c : UInt8} (nonzero : c ≠ 0) (rest : List UInt8) :
    getStringEntities (escapeXml [c] ++ rest) = (getStringEntities rest).map (c :: ·) := by
  rw [escapeXml_single nonzero]
  split_ifs with lt gt amp
  · subst lt
    simp only [ascii, chr]
    rw [getStringEntities.eq_def]
    simp [chr]
  · subst gt
    simp only [ascii, chr]
    rw [getStringEntities.eq_def]
    simp [chr]
  · -- `&amp;` passes both length checks of the source
    subst amp
    simp only [ascii, chr]
    rw [getStringEntities.eq_def]
    simp [chr]
    rw [if_neg (by omega), if_neg (by omega)]
  · rw [List.singleton_append, getStringEntities.eq_def]
    simp [amp]

theorem getStringEntities_escapeXml (str : List UInt8) :
    getStringEntities (escapeXml str) = .ok (str.takeWhile (· ≠ 0)) := by
  induction str with
  | nil => rfl
  | cons c str ih =>
    by_cases zero : c = 0
    · subst zero
      simp [escapeXml_cons_zero, getStringEntities]
    · rw [escapeXml_cons zero, getStringEntities_escapeXml_single zero, ih]
      simp [zero, Except.map]

/-- The scan of `getString` stops at the first `<` of a text with no NUL
before it. -/
theorem getStringEnd_append {xs : List UInt8} (clear : ∀ d ∈ xs, d ≠ 0 ∧ d ≠ chr '<') (rest : List UInt8) :
    getStringEnd (xs ++ chr '<' :: rest) = .ok (xs, chr '<' :: rest) := by
  induction xs with
  | nil => simp [getStringEnd, chr]
  | cons d xs ih =>
    obtain ⟨nonzero, notOpen⟩ := clear d List.mem_cons_self
    rw [List.cons_append, getStringEnd, if_neg nonzero, if_neg notOpen,
      ih fun d' member => clear d' (List.mem_cons_of_mem d member)]
    rfl

/-- Every string `OSString::serialize` writes, followed by a tag such as its
`</string>`, is read back by `getString` as the characters of the string up to
its NUL, and the text from the tag on is left to the lexer. -/
theorem getString_escapeXml (str rest : List UInt8) :
    getString (escapeXml str ++ chr '<' :: rest) = .ok (str.takeWhile (· ≠ 0), chr '<' :: rest) := by
  have scanned : getStringEnd (escapeXml str ++ chr '<' :: rest) = .ok (escapeXml str, chr '<' :: rest) :=
    getStringEnd_append (fun _ member => mem_escapeXml member) rest
  simp [getString, scanned, getStringEntities_escapeXml, bind, Except.bind, pure, Except.pure]

end GetString

end Xnu.Serialize
