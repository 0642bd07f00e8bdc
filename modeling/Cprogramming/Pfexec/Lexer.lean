import Cprogramming.Library.CStrings

/-!
# The lexer of the configuration

`yylex` of `parse.y`. The bytes of a word go through two flags, for a backslash and for
quotes, into a buffer that starts over when it is full; a third flag keeps a word
from being a keyword. A word is described here by its spelling in the input: what it
says without its quotes and escapes, whether a quote opens in it and whether it joins
two lines. The lexer returns a keyword for a spelling with backslashes when these
join no lines.
-/

namespace Cprogramming.Pfexec.Lexer

open Library.CStrings

set_option autoImplicit false

/-! ## Tokens -/

inductive Keyword where
  | deny
  | permit
  | as
  | cmd
  | args
  | nopass
  | nolog
  | persist
  | keepenv
  | setenv
  | keepgroups
  | setgroups
  | chroot
deriving DecidableEq

def keywords : List (CString × Keyword) :=
  [(CString.ofString "deny", .deny), (CString.ofString "permit", .permit),
    (CString.ofString "as", .as), (CString.ofString "cmd", .cmd),
    (CString.ofString "args", .args), (CString.ofString "nopass", .nopass),
    (CString.ofString "nolog", .nolog), (CString.ofString "persist", .persist),
    (CString.ofString "keepenv", .keepenv), (CString.ofString "setenv", .setenv),
    (CString.ofString "keepgroups", .keepgroups), (CString.ofString "setgroups", .setgroups),
    (CString.ofString "chroot", .chroot)]

inductive Token where
  | eof
  | newline
  | openBrace
  | closeBrace
  | keyword (word : Keyword)
  | string (str : CString)
deriving DecidableEq

/-! ## Bytes -/

def backslash : UInt8 := 92
def newlineByte : UInt8 := 10
def quoteSign : UInt8 := 34
def openBraceByte : UInt8 := 123
def closeBraceByte : UInt8 := 125
def hashSign : UInt8 := 35
def space : UInt8 := 32
def tab : UInt8 := 9

inductive ByteClass where
  | nul
  | escaping
  | ending
  | delimiter
  | quoting
  | plain
deriving DecidableEq

def classOf (byte : UInt8) : ByteClass :=
  if byte = 0 then .nul
  else if byte = backslash then .escaping
  else if byte = newlineByte then .ending
  else if byte = openBraceByte ∨ byte = closeBraceByte ∨ byte = hashSign ∨ byte = space ∨
      byte = tab then .delimiter
  else if byte = quoteSign then .quoting
  else .plain

def isBlank (byte : UInt8) : Bool := decide (byte = space) || decide (byte = tab)

/-! ## State -/

/-- The messages of `yyerror`, each with its line: "unallowed character NUL in
column %d", "unterminated escape in column %d", "unterminated quotes in column %d" and
"too long line". -/
inductive LexError where
  | nulCharacter (column line : Nat)
  | unterminatedEscape (column line : Nat)
  | unterminatedQuotes (column line : Nat)
  | tooLong (line : Nat)
deriving DecidableEq

/-- The position in `yylval` and the errors so far. -/
structure Scanner where
  lineno : Nat
  colno : Nat
  errors : List LexError
deriving DecidableEq

def yyerror (scanner : Scanner) (error : Nat → LexError) : Scanner :=
  { scanner with errors := scanner.errors ++ [error (scanner.lineno + 1)] }

def nextLine (scanner : Scanner) : Scanner :=
  { scanner with colno := 0, lineno := scanner.lineno + 1 }

def nextColumn (scanner : Scanner) : Scanner := { scanner with colno := scanner.colno + 1 }

/-- The local variables; `buf` is what lies before `p`, and `qpos` is none for -1. -/
structure Word where
  buf : List UInt8
  quotes : Bool
  escape : Bool
  qpos : Option Nat
  nonkw : Bool
deriving DecidableEq

def noWord : Word := ⟨[], false, false, none, false⟩

def bufSize : Nat := 1024

/-- `*p++ = c`, back to the start of a full buffer. -/
def storeByte (buf : List UInt8) (byte : UInt8) : List UInt8 :=
  if buf.length + 1 = bufSize then [] else buf ++ [byte]

/-! ## The loop over a word -/

/-- What a byte makes of the word; `none` is the jump to `eow`. -/
def wordStep (word : Word) (colno : Nat) (byte : UInt8) : Option Word :=
  let stored := { word with buf := storeByte word.buf byte, escape := false }
  match classOf byte with
  | .nul => some { word with escape := false }
  | .escaping => if word.escape then some stored else some { word with escape := true }
  | .ending => if word.escape then some { word with nonkw := true, escape := false } else none
  | .delimiter => if !word.escape && !word.quotes then none else some stored
  | .quoting =>
    if word.escape then some stored
    else if word.quotes then some { word with quotes := false }
    else some { word with quotes := true, nonkw := true, qpos := some colno }
  | .plain => some stored

/-- `qpos` is set whenever quotes are open. -/
def quotesError (word : Word) (scanner : Scanner) : Scanner :=
  if word.quotes then yyerror scanner (.unterminatedQuotes (word.qpos.getD 0 + 1)) else scanner

def storeError (word : Word) (scanner : Scanner) : Scanner :=
  if word.buf.length + 1 = bufSize then yyerror scanner .tooLong else scanner

def passByte (word : Word) (scanner : Scanner) (byte : UInt8) : Scanner :=
  match classOf byte with
  | .nul => nextColumn (yyerror scanner (.nulCharacter (scanner.colno + 1)))
  | .escaping => nextColumn (if word.escape then storeError word scanner else scanner)
  | .ending => nextColumn (nextLine (quotesError word scanner))
  | .delimiter => nextColumn (storeError word scanner)
  | .quoting => nextColumn (if word.escape then storeError word scanner else scanner)
  | .plain => nextColumn (storeError word scanner)

def endByte (word : Word) (scanner : Scanner) (byte : UInt8) : Scanner :=
  match classOf byte with
  | .ending => quotesError word scanner
  | _ => scanner

def endOfInput (word : Word) (scanner : Scanner) : Scanner :=
  quotesError word
    (if word.escape then yyerror scanner (.unterminatedEscape scanner.colno) else scanner)

/-- The word, the scanner and the input that is left, with the byte that was put back. -/
def scanWord : Word → Scanner → List UInt8 → Word × Scanner × List UInt8
  | word, scanner, [] => (word, endOfInput word scanner, [])
  | word, scanner, byte :: rest =>
    match wordStep word scanner.colno byte with
    | none => (word, endByte word scanner byte, byte :: rest)
    | some next => scanWord next (passByte word scanner byte) rest

/-! ## The lexer -/

def keywordOf (buf : List UInt8) : Option Keyword :=
  (keywords.find? fun entry => strcmp (CString.ofBytes buf).bytes entry.1.bytes = 0).map Prod.snd

def wordToken (nonkw : Bool) (buf : List UInt8) : Token :=
  if nonkw then .string (CString.ofBytes buf)
  else
    match keywordOf buf with
    | some word => .keyword word
    | none => .string (CString.ofBytes buf)

def specialToken (scanner : Scanner) (byte : UInt8) (rest : List UInt8) :
    Option (Token × Scanner × List UInt8) :=
  if byte = newlineByte then some (.newline, nextLine scanner, rest)
  else if byte = openBraceByte then some (.openBrace, scanner, rest)
  else if byte = closeBraceByte then some (.closeBrace, scanner, rest)
  else if byte = hashSign then
    match rest.dropWhile (· != newlineByte) with
    | [] => some (.eof, scanner, [])
    | _ :: after => some (.newline, nextLine scanner, after)
  else none

/-- `yylex` from the label `repeat` on, for at most that many rounds. -/
def lexFrom : Nat → Word → Scanner → List UInt8 → Option (Token × Scanner × List UInt8)
  | 0, _, _, _ => none
  | fuel + 1, word, scanner, input =>
    let scanner := { scanner with colno := scanner.colno + (input.takeWhile isBlank).length }
    match input.dropWhile isBlank with
    | [] => some (.eof, scanner, [])
    | byte :: rest =>
      match specialToken scanner byte rest with
      | some result => some result
      | none =>
        let (word, scanner, left) := scanWord word scanner (byte :: rest)
        if word.buf = [] ∧ left = [] then some (.eof, scanner, [])
        else if word.buf = [] ∧ word.qpos = none then lexFrom fuel word scanner left
        else some (wordToken word.nonkw word.buf, scanner, left)

def yylex (scanner : Scanner) (input : List UInt8) : Option (Token × Scanner × List UInt8) :=
  lexFrom (input.length + 1) noWord scanner input

/-! ## The spelling of a word -/

/-- The bytes of the word that the input starts with, after a backslash or inside
quotes as the flags say. -/
def spelled : Bool → Bool → List UInt8 → List UInt8
  | _, _, [] => []
  | escape, quotes, byte :: rest =>
    match classOf byte with
    | .nul => byte :: spelled false quotes rest
    | .escaping => byte :: spelled (!escape) quotes rest
    | .ending => if escape then byte :: spelled false quotes rest else []
    | .delimiter => if !escape && !quotes then [] else byte :: spelled false quotes rest
    | .quoting => byte :: spelled false (if escape then quotes else !quotes) rest
    | .plain => byte :: spelled false quotes rest

/-- What the spelling says: the quotes, the escaping backslashes, the joined line ends and
NULs are left out. -/
def textOf : Bool → List UInt8 → List UInt8
  | _, [] => []
  | escape, byte :: rest =>
    match classOf byte with
    | .nul => textOf false rest
    | .escaping => if escape then byte :: textOf false rest else textOf true rest
    | .ending => textOf false rest
    | .delimiter => byte :: textOf false rest
    | .quoting => if escape then byte :: textOf false rest else textOf false rest
    | .plain => byte :: textOf false rest

def opensQuote : Bool → List UInt8 → Bool
  | _, [] => false
  | escape, byte :: rest =>
    match classOf byte with
    | .escaping => opensQuote (!escape) rest
    | .quoting => if escape then opensQuote false rest else true
    | _ => opensQuote false rest

/-- Every line end inside a word is escaped. -/
def joinsLines : Bool → List UInt8 → Bool
  | _, [] => false
  | escape, byte :: rest =>
    match classOf byte with
    | .escaping => joinsLines (!escape) rest
    | .ending => true
    | _ => joinsLines false rest

/-- The part of a text that is in the buffer at its end. -/
def buffered (text : List UInt8) : List UInt8 := text.drop (bufSize * (text.length / bufSize))

theorem buffered_store (buf rest : List UInt8) (byte : UInt8) :
    buffered (storeByte buf byte ++ rest) = buffered (buf ++ byte :: rest) := by
  unfold storeByte
  split_ifs with full
  · have split : buf ++ byte :: rest = (buf ++ [byte]) ++ rest := by simp
    have whole : (buf ++ [byte]).length = bufSize := by simpa using full
    have rounds : ((buf ++ [byte]) ++ rest).length / bufSize = 1 + rest.length / bufSize := by
      rw [List.length_append, whole, Nat.add_div_left _ (by decide), Nat.add_comm]
    rw [buffered, buffered, split, rounds, Nat.mul_add, Nat.mul_one, ← List.drop_drop]
    congr 1
    rw [← whole, List.drop_left, List.nil_append]
  · rw [List.append_assoc, List.singleton_append]

theorem store_byte_room {buf : List UInt8} (byte : UInt8) (room : buf.length < bufSize) :
    (storeByte buf byte).length < bufSize := by
  unfold storeByte
  split_ifs with full
  · decide
  · rw [List.length_append, List.length_singleton]
    omega

theorem buffered_short {text : List UInt8} (short : text.length < bufSize) :
    buffered text = text := by
  rw [buffered, Nat.div_eq_of_lt short, Nat.mul_zero, List.drop_zero]

theorem spelled_is_start (escape quotes : Bool) (input : List UInt8) :
    spelled escape quotes input ++ input.drop (spelled escape quotes input).length = input := by
  induction input generalizing escape quotes with
  | nil => rfl
  | cons byte rest ih =>
    rw [spelled]
    cases classOf byte with
    | nul => exact congrArg (byte :: ·) (ih false quotes)
    | escaping => exact congrArg (byte :: ·) (ih (!escape) quotes)
    | ending =>
      dsimp only
      split_ifs
      · exact congrArg (byte :: ·) (ih false quotes)
      · rfl
    | delimiter =>
      dsimp only
      split_ifs
      · rfl
      · exact congrArg (byte :: ·) (ih false quotes)
    | quoting => exact congrArg (byte :: ·) (ih false _)
    | plain => exact congrArg (byte :: ·) (ih false quotes)

/-! ## The loop reads a spelling -/

variable {word : Word} {byte : UInt8} {rest : List UInt8}

/-- The buffer has room, and quotes are open only in a word that is marked for them. -/
structure Consistent (word : Word) : Prop where
  room : word.buf.length < bufSize
  marked : word.quotes = true → word.nonkw = true ∧ word.qpos.isSome = true

/-- The result of the loop, said of the spelling alone. -/
structure Scanned (word : Word) (input spelling : List UInt8)
    (result : Word × Scanner × List UInt8) : Prop where
  left : result.2.2 = input.drop spelling.length
  buf : result.1.buf = buffered (word.buf ++ textOf word.escape spelling)
  nonkw : result.1.nonkw =
    (word.nonkw || opensQuote word.escape spelling || joinsLines word.escape spelling)
  qpos : result.1.qpos.isSome = (word.qpos.isSome || opensQuote word.escape spelling)
  consistent : Consistent result.1
  ended : result.2.2 ≠ [] → result.1.escape = false

theorem scanned_pass {next : Word} {spelling : List UInt8} {result : Word × Scanner × List UInt8}
    (later : Scanned next rest spelling result)
    (buf : buffered (next.buf ++ textOf next.escape spelling) =
      buffered (word.buf ++ textOf word.escape (byte :: spelling)))
    (nonkw : (next.nonkw || opensQuote next.escape spelling || joinsLines next.escape spelling) =
      (word.nonkw || opensQuote word.escape (byte :: spelling) ||
      joinsLines word.escape (byte :: spelling)))
    (qpos : (next.qpos.isSome || opensQuote next.escape spelling) =
      (word.qpos.isSome || opensQuote word.escape (byte :: spelling))) :
    Scanned word (byte :: rest) (byte :: spelling) result where
  left := by rw [later.left, List.length_cons, List.drop_succ_cons]
  buf := later.buf.trans buf
  nonkw := later.nonkw.trans nonkw
  qpos := later.qpos.trans qpos
  consistent := later.consistent
  ended := later.ended

theorem scanned_store {spelling : List UInt8} {result : Word × Scanner × List UInt8}
    (later : Scanned { word with buf := storeByte word.buf byte, escape := false } rest spelling
      result) (text : textOf word.escape (byte :: spelling) = byte :: textOf false spelling)
    (opens : opensQuote word.escape (byte :: spelling) = opensQuote false spelling)
    (joins : joinsLines word.escape (byte :: spelling) = joinsLines false spelling) :
    Scanned word (byte :: rest) (byte :: spelling) result := by
  apply scanned_pass later
  · rw [text]
    exact buffered_store word.buf _ byte
  · rw [opens, joins]
  · rw [opens]

theorem scanned_stop (word : Word) (scanner : Scanner) (input : List UInt8)
    (consistent : Consistent word) (unescaped : input ≠ [] → word.escape = false) :
    Scanned word input [] (word, scanner, input) where
  left := by rfl
  buf := by simp [textOf, buffered_short consistent.room]
  nonkw := by simp [opensQuote, joinsLines]
  qpos := by simp [opensQuote]
  consistent := consistent
  ended := unescaped

theorem scan_word_spec (word : Word) (scanner : Scanner) (input : List UInt8)
    (consistent : Consistent word) :
    Scanned word input (spelled word.escape word.quotes input) (scanWord word scanner input) := by
  induction input generalizing word scanner with
  | nil => exact scanned_stop word _ [] consistent (fun absurdity => absurd rfl absurdity)
  | cons byte rest ih =>
    have stored := ih { word with buf := storeByte word.buf byte, escape := false }
      (passByte word scanner byte)
      ⟨store_byte_room byte consistent.room, consistent.marked⟩
    rw [scanWord, wordStep, spelled]
    -- one case for each label of the switch
    cases label : classOf byte with
    | nul =>
      have passed := ih { word with escape := false } (passByte word scanner byte)
        ⟨consistent.room, consistent.marked⟩
      apply scanned_pass passed
      · rw [textOf, label]
      · rw [opensQuote, joinsLines, label]
      · rw [opensQuote, label]
    | escaping =>
      cases escaped : word.escape with
      | true =>
        apply scanned_store stored
        · rw [textOf, label, escaped]; rfl
        · rw [opensQuote, label, escaped]; rfl
        · rw [joinsLines, label, escaped]; rfl
      | false =>
        have passed := ih { word with escape := true } (passByte word scanner byte)
          ⟨consistent.room, consistent.marked⟩
        apply scanned_pass passed
        · rw [textOf, label, escaped]; rfl
        · rw [opensQuote, joinsLines, label, escaped]; rfl
        · rw [opensQuote, label, escaped]; rfl
    | ending =>
      cases escaped : word.escape with
      | true =>
        have passed := ih { word with nonkw := true, escape := false }
          (passByte word scanner byte)
          ⟨consistent.room, fun opened => ⟨rfl, (consistent.marked opened).2⟩⟩
        apply scanned_pass passed
        · rw [textOf, label]
        · rw [opensQuote, joinsLines, label]
          simp
        · rw [opensQuote, label]
      | false => exact scanned_stop word _ _ consistent (fun _ => escaped)
    | delimiter =>
      dsimp only
      split_ifs with ends
      · simp only [Bool.and_eq_true, Bool.not_eq_true_eq_eq_false] at ends
        exact scanned_stop word _ _ consistent (fun _ => ends.1)
      · apply scanned_store stored
        · rw [textOf, label]
        · rw [opensQuote, label]
        · rw [joinsLines, label]
    | quoting =>
      cases escaped : word.escape with
      | true =>
        apply scanned_store stored
        · rw [textOf, label, escaped]; rfl
        · rw [opensQuote, label, escaped]; rfl
        · rw [joinsLines, label]
      | false =>
        cases inside : word.quotes with
        | true =>
          have marks := consistent.marked inside
          have passed := ih { word with quotes := false, escape := false }
            (passByte word scanner byte) ⟨consistent.room, fun _ => marks⟩
          apply scanned_pass passed
          · rw [textOf, label, escaped]; rfl
          · rw [marks.1]
            rfl
          · rw [marks.2]
            rfl
        | false =>
          have passed := ih
            { word with
              quotes := true, escape := false, qpos := some scanner.colno, nonkw := true }
            (passByte word scanner byte) ⟨consistent.room, fun _ => ⟨rfl, rfl⟩⟩
          apply scanned_pass passed
          · rw [textOf, label, escaped]; rfl
          · rw [opensQuote, label, escaped]
            simp
          · rw [opensQuote, label, escaped]
            simp
    | plain =>
      apply scanned_store stored
      · rw [textOf, label]
      · rw [opensQuote, label]
      · rw [joinsLines, label]

/-! ## The lexer returns the next word -/

variable (fuel : Nat) (scanner : Scanner) (input : List UInt8)

def isSpecial (byte : UInt8) : Bool :=
  decide (byte = newlineByte) || decide (byte = openBraceByte) || decide (byte = closeBraceByte) ||
    decide (byte = hashSign)

def isWord : Token → Bool
  | .keyword _ => true
  | .string _ => true
  | _ => false

/-- A word of the input: whether lines were joined on the way to its end, its spelling
and what follows it. -/
structure NextWord where
  joined : Bool
  spelling : List UInt8
  left : List UInt8
deriving DecidableEq

/-- The next word; one that says nothing and has no quotes is passed over. -/
def nextWordFrom : Nat → Bool → List UInt8 → Option NextWord
  | 0, _, _ => none
  | fuel + 1, joined, input =>
    match input.dropWhile isBlank with
    | [] => none
    | byte :: rest =>
      if isSpecial byte then none
      else
        let spelling := spelled false false (byte :: rest)
        let left := (byte :: rest).drop spelling.length
        let text := buffered (textOf false spelling)
        if text = [] ∧ left = [] then none
        else if text = [] ∧ opensQuote false spelling = false then
          nextWordFrom fuel (joined || joinsLines false spelling) left
        else some ⟨joined || joinsLines false spelling, spelling, left⟩

def nextWord (input : List UInt8) : Option NextWord :=
  nextWordFrom (input.length + 1) false input

theorem special_token_none (rest : List UInt8) (ordinary : isSpecial byte = false) :
    specialToken scanner byte rest = none := by
  simp only [isSpecial, Bool.or_eq_false_iff, decide_eq_false_iff_not] at ordinary
  rw [specialToken, if_neg ordinary.1.1.1, if_neg ordinary.1.1.2, if_neg ordinary.1.2,
    if_neg ordinary.2]

theorem special_token_some (byte : UInt8) (rest : List UInt8) (special : isSpecial byte = true) :
    ∃ result, specialToken scanner byte rest = some result ∧ isWord result.1 = false := by
  unfold specialToken
  split_ifs with newline opening closing comment
  · exact ⟨_, rfl, rfl⟩
  · exact ⟨_, rfl, rfl⟩
  · exact ⟨_, rfl, rfl⟩
  · cases rest.dropWhile (· != newlineByte) with
    | nil => exact ⟨_, rfl, rfl⟩
    | cons first after => exact ⟨_, rfl, rfl⟩
  · simp [isSpecial, newline, opening, closing, comment] at special

/-- The variables at the label `repeat`. -/
structure AtRepeat (word : Word) : Prop where
  buf : word.buf = []
  quotes : word.quotes = false
  escape : word.escape = false
  qpos : word.qpos = none

theorem at_repeat_consistent (fresh : AtRepeat word) : Consistent word where
  room := by
    rw [fresh.buf]
    decide
  marked opened := by
    rw [fresh.quotes] at opened
    exact absurd opened Bool.false_ne_true

/-- The result of the loop over a word that starts at the label `repeat`. -/
structure ReadWord (nonkw : Bool) (input spelling : List UInt8) (next : Word)
    (unread : List UInt8) : Prop where
  left : unread = input.drop spelling.length
  buf : next.buf = buffered (textOf false spelling)
  marks : next.nonkw = (nonkw || joinsLines false spelling || opensQuote false spelling)
  qpos : next.qpos = none ↔ opensQuote false spelling = false
  again : next.buf = [] → unread ≠ [] → next.qpos = none → AtRepeat next

theorem scan_word_at_repeat (fresh : AtRepeat word) :
    ReadWord word.nonkw input (spelled false false input) (scanWord word scanner input).1
      (scanWord word scanner input).2.2 := by
  have scanned := scan_word_spec word scanner input (at_repeat_consistent fresh)
  rw [fresh.escape, fresh.quotes] at scanned
  have buf := scanned.buf
  have nonkw := scanned.nonkw
  have qpos := scanned.qpos
  rw [fresh.buf, fresh.escape, List.nil_append] at buf
  rw [fresh.escape, Bool.or_right_comm] at nonkw
  rw [fresh.qpos, fresh.escape, Option.isSome_none, Bool.false_or] at qpos
  refine ⟨scanned.left, buf, nonkw, ?_, ?_⟩
  · rw [← qpos]
    exact Option.isSome_eq_false_iff.trans Option.isNone_iff_eq_none |>.symm
  · intro empty more unquoted
    refine ⟨empty, ?_, scanned.ended more, unquoted⟩
    cases opened : (scanWord word scanner input).1.quotes with
    | false => rfl
    | true =>
      have marked := (scanned.consistent.marked opened).2
      rw [unquoted] at marked
      exact absurd marked Bool.false_ne_true

/-! ## One round from the label `repeat` -/

theorem class_of_visible (ordinary : isSpecial byte = false) (visible : isBlank byte = false) :
    classOf byte ≠ .ending ∧ classOf byte ≠ .delimiter := by
  simp only [isSpecial, isBlank, Bool.or_eq_false_iff, decide_eq_false_iff_not] at ordinary visible
  obtain ⟨⟨⟨newline, opening⟩, closing⟩, comment⟩ := ordinary
  simp only [classOf, newline, opening, closing, comment, visible.1, visible.2, or_self, if_false]
  split_ifs
  · decide
  · decide
  · decide
  · decide

theorem spelled_positive (rest : List UInt8) (ordinary : isSpecial byte = false)
    (visible : isBlank byte = false) : 0 < (spelled false false (byte :: rest)).length := by
  have label := class_of_visible ordinary visible
  rw [spelled]
  cases found : classOf byte with
  | ending => exact absurd found label.1
  | delimiter => exact absurd found label.2
  | nul => exact Nat.succ_pos _
  | escaping => exact Nat.succ_pos _
  | quoting => exact Nat.succ_pos _
  | plain => exact Nat.succ_pos _

/-- A round returns no word, starts again behind a word that says nothing, or returns
the next word. -/
inductive LexRound (fuel : Nat) (word : Word) (scanner : Scanner) (input : List UInt8) : Prop
  | other (result : Token × Scanner × List UInt8)
      (lexed : lexFrom (fuel + 1) word scanner input = some result)
      (noWord : isWord result.1 = false)
      (next : nextWordFrom (fuel + 1) word.nonkw input = none)
  | again (following : Word) (after : Scanner) (before left : List UInt8)
      (fresh : AtRepeat following) (split : input = before ++ left) (consumed : 0 < before.length)
      (lexed : lexFrom (fuel + 1) word scanner input = lexFrom fuel following after left)
      (next : nextWordFrom (fuel + 1) word.nonkw input = nextWordFrom fuel following.nonkw left)
  | returned (found : NextWord) (after : Scanner) (before : List UInt8)
      (split : input = before ++ found.spelling ++ found.left)
      (lexed : lexFrom (fuel + 1) word scanner input =
        some (wordToken (found.joined || opensQuote false found.spelling)
          (buffered (textOf false found.spelling)), after, found.left))
      (next : nextWordFrom (fuel + 1) word.nonkw input = some found)

theorem lex_from_ordinary (word : Word) (scanner : Scanner) {input : List UInt8}
    (start : input.dropWhile isBlank = byte :: rest) (ordinary : isSpecial byte = false) :
    ∃ position, lexFrom (fuel + 1) word scanner input =
      let (next, after, left) := scanWord word position (byte :: rest)
      if next.buf = [] ∧ left = [] then some (.eof, after, [])
      else if next.buf = [] ∧ next.qpos = none then lexFrom fuel next after left
      else some (wordToken next.nonkw next.buf, after, left) := by
  refine ⟨{ scanner with colno := scanner.colno + (input.takeWhile isBlank).length }, ?_⟩
  rw [lexFrom]
  dsimp only
  rw [start]
  dsimp only
  rw [special_token_none _ rest ordinary]

theorem lex_round_ordinary {input : List UInt8} (fresh : AtRepeat word)
    (start : input.dropWhile isBlank = byte :: rest) (ordinary : isSpecial byte = false)
    (visible : isBlank byte = false) : LexRound fuel word scanner input := by
  obtain ⟨position, lexed⟩ := lex_from_ordinary fuel word scanner start ordinary
  have read := scan_word_at_repeat position (byte :: rest) fresh
  have positive := spelled_positive rest ordinary visible
  have split : input = input.takeWhile isBlank ++ spelled false false (byte :: rest) ++
      (byte :: rest).drop (spelled false false (byte :: rest)).length := by
    rw [List.append_assoc, spelled_is_start, ← start, List.takeWhile_append_dropWhile]
  have next := nextWordFrom.eq_2 word.nonkw input fuel
  simp only [start, ordinary, Bool.false_eq_true, if_false] at next
  generalize spelled false false (byte :: rest) = spelling at read positive split next
  cases scan : scanWord word position (byte :: rest) with
  | mk following ends =>
    rw [scan] at read lexed
    dsimp only at read lexed
    rw [← read.left] at split
    rw [← read.left, ← read.buf] at next
    by_cases nothing : following.buf = [] ∧ ends.2 = []
    · rw [if_pos nothing] at lexed next
      exact LexRound.other _ lexed rfl next
    rw [if_neg nothing] at lexed next
    by_cases empty : following.buf = [] ∧ following.qpos = none
    · have unquoted := read.qpos.mp empty.2
      have more : ends.2 ≠ [] := fun ended => nothing ⟨empty.1, ended⟩
      have carried : following.nonkw = (word.nonkw || joinsLines false spelling) := by
        rw [read.marks, unquoted, Bool.or_false]
      rw [if_pos empty] at lexed
      rw [if_pos ⟨empty.1, unquoted⟩, ← carried] at next
      apply LexRound.again following ends.1 _ ends.2 (read.again empty.1 more empty.2) split ?_
        lexed next
      rw [List.length_append]
      omega
    · have quoted : ¬ (following.buf = [] ∧ opensQuote false spelling = false) := by
        intro both
        exact empty ⟨both.1, read.qpos.mpr both.2⟩
      rw [if_neg empty, read.marks, read.buf] at lexed
      rw [if_neg quoted] at next
      exact LexRound.returned ⟨word.nonkw || joinsLines false spelling, spelling, ends.2⟩ ends.1
        _ split lexed next

theorem lex_round (fresh : AtRepeat word) : LexRound fuel word scanner input := by
  cases start : input.dropWhile isBlank with
  | nil =>
    apply LexRound.other
    · rw [lexFrom, start]
    · rfl
    · rw [nextWordFrom, start]
  | cons byte rest =>
    cases special : isSpecial byte with
    | true =>
      obtain ⟨token, found, notWord⟩ := special_token_some
        { scanner with colno := scanner.colno + (input.takeWhile isBlank).length } byte rest
        special
      apply LexRound.other token
      · rw [lexFrom]
        dsimp only
        rw [start]
        dsimp only
        rw [found]
      · exact notWord
      · rw [nextWordFrom, start]
        dsimp only
        rw [special, if_pos rfl]
    | false =>
      have visible := List.head?_dropWhile_not isBlank input
      rw [start] at visible
      exact lex_round_ordinary fuel scanner fresh start special (by simpa using visible)

theorem lex_from_spec (word : Word) (scanner : Scanner) (input : List UInt8)
    (fresh : AtRepeat word) : match nextWordFrom fuel word.nonkw input with
    | some found =>
      (∃ before, input = before ++ found.spelling ++ found.left) ∧
        ∃ after, lexFrom fuel word scanner input =
          some (wordToken (found.joined || opensQuote false found.spelling)
            (buffered (textOf false found.spelling)), after, found.left)
    | none => ∀ result, lexFrom fuel word scanner input = some result → isWord result.1 = false := by
  induction fuel generalizing word scanner input with
  | zero =>
    intro result impossible
    exact absurd impossible.symm (Option.some_ne_none result)
  | succ fuel ih =>
    cases lex_round fuel scanner input fresh with
    | other result lexed noWord next =>
      rw [next, lexed]
      intro returned same
      rw [← Option.some.inj same]
      exact noWord
    | returned found after before split lexed next =>
      rw [next]
      exact ⟨⟨before, split⟩, after, lexed⟩
    | again following after before left fresh split consumed lexed next =>
      have later := ih following after left fresh
      rw [next, lexed]
      cases found : nextWordFrom fuel following.nonkw left with
      | none =>
        rw [found] at later
        exact later
      | some word =>
        rw [found] at later
        obtain ⟨⟨between, parts⟩, returned⟩ := later
        refine ⟨⟨before ++ between, ?_⟩, returned⟩
        rw [split, parts, List.append_assoc, List.append_assoc, List.append_assoc]

theorem yylex_spec : match nextWord input with
    | some found =>
      (∃ before, input = before ++ found.spelling ++ found.left) ∧
        ∃ after, yylex scanner input =
          some (wordToken (found.joined || opensQuote false found.spelling)
            (buffered (textOf false found.spelling)), after, found.left)
    | none => ∀ result, yylex scanner input = some result → isWord result.1 = false := by
  exact lex_from_spec (input.length + 1) noWord scanner input ⟨rfl, rfl, rfl, rfl⟩

/-! ## The lexer returns -/

theorem lex_from_returns (word : Word) (scanner : Scanner) (input : List UInt8)
    (fresh : AtRepeat word) (enough : input.length < fuel) :
    ∃ result, lexFrom fuel word scanner input = some result := by
  induction fuel generalizing word scanner input with
  | zero => exact absurd enough (Nat.not_lt_zero _)
  | succ fuel ih =>
    cases lex_round fuel scanner input fresh with
    | other result lexed _ _ => exact ⟨result, lexed⟩
    | returned found after _ _ lexed _ => exact ⟨_, lexed⟩
    | again following after before left fresh split consumed lexed _ =>
      rw [lexed]
      apply ih following after left fresh
      rw [split, List.length_append] at enough
      omega

theorem yylex_returns : ∃ result, yylex scanner input = some result := by
  exact lex_from_returns (input.length + 1) noWord scanner input ⟨rfl, rfl, rfl, rfl⟩
    (Nat.lt_succ_self _)

/-! ## Quoted strings -/

variable {blank : UInt8}

def escapedText (text : List UInt8) : List UInt8 :=
  text.flatMap fun byte =>
    if byte = quoteSign ∨ byte = backslash then [backslash, byte] else [byte]

def quotedText (text : List UInt8) : List UInt8 := quoteSign :: (escapedText text ++ [quoteSign])

theorem escaped_text_cons (byte : UInt8) (text : List UInt8) :
    escapedText (byte :: text) =
      if byte = quoteSign ∨ byte = backslash then backslash :: byte :: escapedText text
      else byte :: escapedText text := by
  rw [escapedText, List.flatMap_cons]
  split_ifs
  · rfl
  · rfl

theorem class_of_ordinary (nonzero : byte ≠ 0) (sameLine : byte ≠ newlineByte)
    (bare : ¬ (byte = quoteSign ∨ byte = backslash)) :
    classOf byte = .delimiter ∨ classOf byte = .plain := by
  rw [not_or] at bare
  simp only [classOf, nonzero, sameLine, bare.1, bare.2, if_false]
  split_ifs
  · exact Or.inl rfl
  · exact Or.inr rfl

/-- The description of an escaped text inside quotes, up to the closing quote. -/
theorem escaped_text_spec {text : List UInt8} (nulFree : (0 : UInt8) ∉ text)
    (oneLine : newlineByte ∉ text) (rest : List UInt8) (blanks : isBlank blank = true) :
    spelled false true (escapedText text ++ quoteSign :: blank :: rest) =
        escapedText text ++ [quoteSign] ∧ textOf false (escapedText text ++ [quoteSign]) = text ∧
      joinsLines false (escapedText text ++ [quoteSign]) = false := by
  have escaping : classOf backslash = .escaping := by decide
  have quoting : classOf quoteSign = .quoting := by decide
  induction text with
  | nil =>
    have ends : classOf blank = .delimiter := by
      simp only [isBlank, Bool.or_eq_true, decide_eq_true_eq] at blanks
      rcases blanks with rfl | rfl
      · decide
      · decide
    simp [escapedText, spelled, textOf, joinsLines, quoting, ends]
  | cons byte text ih =>
    have later := ih (fun member => nulFree (List.mem_cons_of_mem byte member))
      (fun member => oneLine (List.mem_cons_of_mem byte member))
    rw [escaped_text_cons]
    split_ifs with needs
    · rcases needs with rfl | rfl
      · simpa [spelled, textOf, joinsLines, escaping, quoting] using later
      · simpa [spelled, textOf, joinsLines, escaping] using later
    · have nonzero : byte ≠ 0 := fun zero => nulFree (zero ▸ List.mem_cons_self)
      have sameLine : byte ≠ newlineByte := fun ends => oneLine (ends ▸ List.mem_cons_self)
      rcases class_of_ordinary nonzero sameLine needs with label | label
      · simpa [spelled, textOf, joinsLines, label] using later
      · simpa [spelled, textOf, joinsLines, label] using later

theorem next_word_quoted {text : CString} (oneLine : newlineByte ∉ text.bytes) (rest : List UInt8)
    (blanks : isBlank blank = true) : nextWord (quotedText text.bytes ++ blank :: rest) =
      some ⟨false, quotedText text.bytes, blank :: rest⟩ := by
  have quoting : classOf quoteSign = .quoting := by decide
  have inside := escaped_text_spec text.nulFree oneLine rest blanks
  have input : quotedText text.bytes ++ blank :: rest =
      quoteSign :: (escapedText text.bytes ++ quoteSign :: blank :: rest) := by
    simp [quotedText]
  have spelling : spelled false false (quotedText text.bytes ++ blank :: rest) =
      quotedText text.bytes := by
    rw [input, spelled, quoting]
    dsimp only
    rw [if_neg Bool.false_ne_true, Bool.not_false, inside.1, quotedText]
  have opens : opensQuote false (quotedText text.bytes) = true := by
    rw [quotedText, opensQuote, quoting]
    rfl
  have joins : joinsLines false (quotedText text.bytes) = false := by
    rw [quotedText, joinsLines, quoting]
    exact inside.2.2
  have left : (quotedText text.bytes ++ blank :: rest).drop (quotedText text.bytes).length =
      blank :: rest := List.drop_left
  have start : (quotedText text.bytes ++ blank :: rest).dropWhile isBlank =
      quotedText text.bytes ++ blank :: rest := by
    rw [input, List.dropWhile_cons_of_neg (by decide)]
  have ordinary : isSpecial quoteSign = false := by decide
  rw [nextWord, nextWordFrom, start, input]
  dsimp only
  rw [ordinary, if_neg Bool.false_ne_true, ← input, spelling, left, opens, joins,
    if_neg (fun both => List.cons_ne_nil blank rest both.2),
    if_neg (fun both => Bool.true_eq_false_eq_False both.2)]
  rfl

theorem yylex_quoted {text : CString} (short : text.bytes.length < bufSize)
    (oneLine : newlineByte ∉ text.bytes) (rest : List UInt8) (blanks : isBlank blank = true) :
    ∃ after, yylex scanner (quotedText text.bytes ++ blank :: rest) =
      some (.string text, after, blank :: rest) := by
  have lexed := yylex_spec scanner (quotedText text.bytes ++ blank :: rest)
  rw [next_word_quoted oneLine rest blanks] at lexed
  obtain ⟨_, after, returned⟩ := lexed
  have quoting : classOf quoteSign = .quoting := by decide
  have opens : opensQuote false (quotedText text.bytes) = true := by
    rw [quotedText, opensQuote, quoting]
    rfl
  have content : textOf false (quotedText text.bytes) = text.bytes := by
    rw [quotedText, textOf, quoting]
    exact (escaped_text_spec text.nulFree oneLine rest blanks).2.1
  have whole : CString.ofBytes text.bytes = text := by
    apply cstring_ext
    apply List.takeWhile_eq_self_iff.mpr
    intro byte member
    have nonzero : byte ≠ 0 := fun zero => text.nulFree (zero ▸ member)
    simpa using nonzero
  refine ⟨after, ?_⟩
  rw [returned, opens, content, buffered_short short, Bool.or_true, wordToken, if_pos rfl, whole]

/-! ## Words that are no keywords -/

/-- A keyword is not returned for a word with a quote or a backslash in its spelling. -/
def NoHiddenKeyword (scanner : Scanner) (input : List UInt8) : Prop :=
  ∀ word after left, yylex scanner input = some (.keyword word, after, left) →
    ∀ found, nextWord input = some found → quoteSign ∉ found.spelling ∧ backslash ∉ found.spelling

theorem yylex_keyword_iff :
    (∃ word after left, yylex scanner input = some (.keyword word, after, left)) ↔
      ∃ found, nextWord input = some found ∧ found.joined = false ∧
        opensQuote false found.spelling = false ∧
        (keywordOf (buffered (textOf false found.spelling))).isSome = true := by
  have lexed := yylex_spec scanner input
  cases next : nextWord input with
  | none =>
    rw [next] at lexed
    constructor
    · intro keyword
      obtain ⟨word, after, left, returned⟩ := keyword
      exact absurd (lexed _ returned) Bool.true_eq_false_eq_False
    · intro impossible
      obtain ⟨found, absurdity, _⟩ := impossible
      exact absurd absurdity.symm (Option.some_ne_none found)
  | some found =>
    rw [next] at lexed
    obtain ⟨_, after, returned⟩ := lexed
    rw [returned]
    simp only [Option.some.injEq, exists_eq_left', Prod.mk.injEq]
    unfold wordToken
    constructor
    · intro keyword
      obtain ⟨word, _, _, token, _⟩ := keyword
      split_ifs at token with marked
      rw [Bool.not_eq_true, Bool.or_eq_false_iff] at marked
      refine ⟨marked.1, marked.2, ?_⟩
      cases known : keywordOf (buffered (textOf false found.spelling)) with
      | some word => rfl
      | none =>
        rw [known] at token
        cases token
    · intro condition
      obtain ⟨unjoined, unquoted, known⟩ := condition
      obtain ⟨word, is⟩ := Option.isSome_iff_exists.mp known
      refine ⟨word, after, found.left, ?_, rfl, rfl⟩
      rw [unjoined, unquoted, is]
      rfl

/-- A quoted text is one string token. A word is returned as a keyword in spite of a
backslash when no quote opens in it, no lines were joined and the text it leaves in
the buffer is a keyword. -/
theorem quoting_rules (scanner : Scanner) :
    (∀ (text : CString) (blank : UInt8) (rest : List UInt8), text.bytes.length ≤ 1023 →
      newlineByte ∉ text.bytes → isBlank blank = true →
      ∃ after, yylex scanner (quotedText text.bytes ++ blank :: rest) =
        some (.string text, after, blank :: rest)) ∧ ∀ input, NoHiddenKeyword scanner input ↔
      ∀ found, nextWord input = some found →
        quoteSign ∉ found.spelling ∧ backslash ∉ found.spelling ∨ found.joined = true ∨
        opensQuote false found.spelling = true ∨
        keywordOf (buffered (textOf false found.spelling)) = none := by
  constructor
  · intro text blank rest short oneLine blanks
    exact yylex_quoted scanner (Nat.lt_succ_of_le short) oneLine rest blanks
  · intro input
    have keyword := yylex_keyword_iff scanner input
    constructor
    · intro hidden found next
      by_contra unmet
      simp only [not_or, Bool.not_eq_true] at unmet
      obtain ⟨written, unjoined, unquoted, known⟩ := unmet
      obtain ⟨word, after, left, returned⟩ := keyword.mpr
        ⟨found, next, unjoined, unquoted, Option.isSome_iff_ne_none.mpr known⟩
      exact written (hidden word after left returned found next)
    · intro condition word after left returned found next
      obtain ⟨other, same, unjoined, unquoted, known⟩ := keyword.mp ⟨word, after, left, returned⟩
      obtain rfl : other = found := Option.some.inj (same.symm.trans next)
      rcases condition other next with plain | joined | quoted | unknown
      · exact plain
      · rw [unjoined] at joined
        exact absurd joined Bool.false_ne_true
      · rw [unquoted] at quoted
        exact absurd quoted Bool.false_ne_true
      · rw [unknown] at known
        exact absurd known Bool.false_ne_true

theorem quoted_permit_string :
    (∃ after, yylex ⟨0, 0, []⟩ (quotedText (bytesOf "permit") ++ [space]) =
        some (.string (CString.ofString "permit"), after, [space])) ∧
      NoHiddenKeyword ⟨0, 0, []⟩ (bytesOf "permit alice") := by
  have rules := quoting_rules ⟨0, 0, []⟩
  refine ⟨rules.1 (CString.ofString "permit") space [] (by decide) (by decide) (by decide), ?_⟩
  apply (rules.2 (bytesOf "permit alice")).mpr
  intro found next
  obtain rfl : ⟨false, bytesOf "permit", bytesOf " alice"⟩ = found := Option.some.inj next
  exact Or.inl (by decide)

/-- `p\ermit` is the keyword `permit`. -/
theorem escaped_letter_keyword :
    (∃ after left, yylex ⟨0, 0, []⟩ (bytesOf "p\\ermit alice") =
        some (.keyword .permit, after, left)) ∧
      ¬ NoHiddenKeyword ⟨0, 0, []⟩ (bytesOf "p\\ermit alice") := by
  refine ⟨⟨_, _, rfl⟩, ?_⟩
  intro hidden
  have plain := hidden .permit _ _ rfl ⟨false, bytesOf "p\\ermit", bytesOf " alice"⟩ (by decide)
  exact absurd plain.2 (by decide)

end Cprogramming.Pfexec.Lexer
