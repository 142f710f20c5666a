import SourceOrigin.FileTree.Source
import SourceOrigin.Proofs.Classification
import SourceOrigin.Proofs.Encoding.RoundTrip
import SourceOrigin.Proofs.Lexer.Unified
import SourceOrigin.Proofs.Outcome

/-! A text that is written to a file and read back is lexed and classified as in memory; only its carriage returns have
become line feeds. -/
namespace SourceOrigin
variable {files : FileTree} {path : Path} {text : Text} {mark : Bytes}

def Token.unified (token : Token) : Token :=
  { token with leadingTrivia := token.leadingTrivia.map Trivia.unified }

def SourceUnit.unified (unit : SourceUnit) : SourceUnit where
  filePath := unit.filePath
  text := Text.unifyBreaks unit.text
  firstToken := unit.firstToken.map Token.unified
  endOfFile := unit.endOfFile.unified

private theorem withoutMark_unifyBreaks (text : Text) :
    withoutMark (Text.unifyBreaks text) = Text.unifyBreaks (withoutMark text) := by
  cases text with
  | nil => rfl
  | cons c rest =>
    by_cases hc : c = byteOrderMark
    · subst hc
      have hrest : Text.unifyBreaks (byteOrderMark :: rest) = byteOrderMark :: Text.unifyBreaks rest :=
        Text.unifyBreaks_part_append (show Text.FeedFree [byteOrderMark] by decide) rest
      rw [hrest]
      rfl
    · have hhead : ∀ d ∈ (Text.unifyBreaks (c :: rest)).head?, d ≠ byteOrderMark :=
        Text.forall_head?_unifyBreaks (by decide) (by simpa using hc)
      rw [withoutMark_of_head? hhead, withoutMark, if_neg hc]

/-- The path of a unit has no influence on its tokens. -/
theorem SourceUnit.ofText_eq (text : Text) (filePath : Option Text) :
    ofText text filePath = ⟨filePath, withoutMark text, (ofText text).firstToken, (ofText text).endOfFile⟩ := by
  unfold ofText
  dsimp only
  cases Lexer.read (withoutMark text) with
  | mk trivia token => cases token <;> rfl

/-- Lexing the unified text gives the unified unit. -/
theorem SourceUnit.ofText_unifyBreaks (text : Text) (filePath : Option Text) :
    ofText (Text.unifyBreaks text) filePath = (ofText text filePath).unified := by
  unfold ofText
  dsimp only
  rw [withoutMark_unifyBreaks, Lexer.read_unifyBreaks]
  cases Lexer.read (withoutMark text) with
  | mk trivia token => cases token <;> rfl

private theorem SourceUnit.firstTokenOrEnd_unified (unit : SourceUnit) :
    unit.unified.firstTokenOrEnd = unit.firstTokenOrEnd.unified := by
  obtain ⟨filePath, text, firstToken, endOfFile⟩ := unit
  cases firstToken <;> rfl

/-- Markers without line breaks of the unified forms are found in the unified trivia where they are found in the trivia. -/
theorem SourceUnit.classify_unified {config : Config} (h : ∀ marker ∈ config.headerMarkers, Text.FeedFree marker)
    (unit : SourceUnit) (token : CancellationToken) :
    classify config unit.unified.tree token = classify config unit.tree token := by
  have hmarks : ∀ piece : Trivia, config.marks piece.unified = config.marks piece := by
    intro piece
    rw [Config.marks, Config.marks]
    refine congrArg (piece.isPlainComment && ·) (Bool.eq_iff_iff.mpr ?_)
    simp only [List.any_eq_true, Text.occursIn_iff]
    refine exists_congr fun marker => and_congr_right fun hmarker => ?_
    exact Text.infix_unifyBreaks_iff (h marker hmarker)
  have hpath : unit.unified.filePath = unit.filePath := rfl
  refine SourceUnit.classify_congr hpath ?_ ?_ ?_ token
  · rw [firstTokenOrEnd_unified]
    rfl
  · rw [firstTokenOrEnd_unified, Token.unified, List.any_map]
    exact List.any_congr rfl fun piece => hmarks piece
  · rw [firstTokenOrEnd_unified, Token.unified, List.all_map]
    rfl

/-- A file that holds the bytes of a text, perhaps with a mark before them, is loaded as the unit of the text with its
carriage returns turned into line feeds: its first token, or the lack of one, is that of the text in memory, and so are the
number and the kinds of its trivia. With the same path the two are classified alike, unless a marker holds one of the breaks
that are changed. -/
theorem FileTree.readUnit_encode (hpath : path.holdsNul = false) (hmark : mark = [] ∨ mark = Encoding.markBytes)
    (hbytes : files.readBytes path = .ok (mark ++ Utf8.encode text)) (htext : ∀ c ∈ text.head?, c ≠ byteOrderMark) :
    ∃ loaded, files.readUnit path "utf-8-sig".toList = .ok loaded ∧ loaded.filePath = some path.toText ∧
      loaded.text = Text.unifyBreaks text ∧
      loaded.firstToken = (SourceUnit.ofText text).firstToken.map Token.unified ∧
      loaded.endOfFile = (SourceUnit.ofText text).endOfFile.unified ∧
      ∀ config : Config, (∀ marker ∈ config.headerMarkers, Text.FeedFree marker) → ∀ filePath token,
        classify config { loaded with filePath }.tree token = classify config (SourceUnit.ofText text filePath).tree token := by
  have hname : Encoding.ofName? "utf-8-sig".toList = some .utf8Marked := by decide +kernel
  have hloaded : files.readUnit path "utf-8-sig".toList =
      .ok (SourceUnit.ofText (Text.unifyBreaks text) (some path.toText)) := by
    rw [readUnit, if_neg (by decide), if_neg (by simp [hpath]), hbytes]
    simp only [decode, hname, Encoding.decode_utf8Marked hmark htext, mapError_ok]
  have hunified : ∀ filePath, SourceUnit.ofText (Text.unifyBreaks text) filePath =
      ⟨filePath, Text.unifyBreaks text, (SourceUnit.ofText text).firstToken.map Token.unified,
        (SourceUnit.ofText text).endOfFile.unified⟩ := by
    intro filePath
    rw [SourceUnit.ofText_unifyBreaks, SourceUnit.ofText_eq text filePath, withoutMark_of_head? htext]
    rfl
  refine ⟨_, hloaded, ?_⟩
  rw [hunified]
  refine ⟨rfl, rfl, rfl, rfl, fun config hmarkers filePath token => ?_⟩
  dsimp only
  rw [← hunified filePath, SourceUnit.ofText_unifyBreaks]
  exact SourceUnit.classify_unified hmarkers _ token

/-- Carriage returns stand alone, before one another and before line feeds, in a comment, in disabled text and between
lines. -/
theorem FileTree.readUnit_encode_mixed :
    let text := "/* a\r\r\n */\r\n#if false\rclass A\r\n#endif\u2028\r// b\rclass B\r\n".toList
    let files : FileTree :=
      { root := .directory [("a.cs".toList, .file (Encoding.markBytes ++ Utf8.encode text))], workingDirectory := [] }
    let path := Path.ofText "a.cs".toList
    path.holdsNul = false ∧ files.readBytes path = .ok (Encoding.markBytes ++ Utf8.encode text) ∧
      (∀ c ∈ text.head?, c ≠ byteOrderMark) ∧
      ∃ loaded, files.readUnit path "utf-8-sig".toList = .ok loaded ∧ loaded.filePath = some path.toText ∧
        loaded.text = "/* a\n\n */\n#if false\nclass A\n#endif\u2028\n// b\nclass B\n".toList ∧
        loaded.firstToken = some ⟨.token, "class".toList, [⟨.blockComment, "/* a\n\n */".toList⟩, ⟨.endOfLine, ['\n']⟩,
          ⟨.directive, "#if false".toList⟩, ⟨.endOfLine, ['\n']⟩, ⟨.disabledText, "class A\n".toList⟩,
          ⟨.directive, "#endif".toList⟩, ⟨.endOfLine, ['\u2028']⟩, ⟨.endOfLine, ['\n']⟩, ⟨.lineComment, "// b".toList⟩,
          ⟨.endOfLine, ['\n']⟩]⟩ ∧
        loaded.endOfFile = ⟨.endOfFile, [], []⟩ ∧
        ∀ config : Config, (∀ marker ∈ config.headerMarkers, Text.FeedFree marker) → ∀ filePath token,
          classify config { loaded with filePath }.tree token =
            classify config (SourceUnit.ofText text filePath).tree token := by
  intro text files path
  have hpath : path.holdsNul = false := by decide +kernel
  have hbytes : files.readBytes path = .ok (Encoding.markBytes ++ Utf8.encode text) := by rfl
  have htext : ∀ c ∈ text.head?, c ≠ byteOrderMark := by simp [text, byteOrderMark]
  obtain ⟨loaded, hloaded, hfile, hunified, hfirst, hend, hclassify⟩ :=
    FileTree.readUnit_encode hpath (.inr rfl) hbytes htext
  refine ⟨hpath, hbytes, htext, loaded, hloaded, hfile, ?_, ?_, ?_, hclassify⟩
  · exact hunified.trans (by decide +kernel)
  · exact hfirst.trans (by decide +kernel)
  · exact hend.trans (by decide +kernel)

end SourceOrigin
