import Mathlib.Data.List.Basic
import Mathlib.Data.List.Infix

/-! How a POSIX shell takes a script apart into words and operators: its three kinds of quoting,
comments and command substitutions. Parameter braces, backquotes, arithmetic, here-documents and
NUL have no reading here. -/
namespace NetworkHealth.Shell

/-- What a character is to the shell where nothing is quoted. -/
inductive CharClass
  | nul
  | newline
  | blank
  | single
  | double
  | backslash
  | dollar
  | backquote
  | hash
  | lparen
  | rparen
  | lbrace
  | operator
  | plain
  deriving DecidableEq, Repr

structure Alphabet (α : Type*) where
  classify : α → CharClass
  /-- The operators of more than one character. -/
  operators : List (List α)
  hereDocuments : List (List α)

/-- What the shell finds, in order. Between the two ends of a word stand its characters and the
commands that are substituted in it. -/
inductive Event (α : Type*)
  | wordBegin
  | wordEnd
  /-- A character of a word that stands for itself. -/
  | quoted (c : α)
  /-- One that the grammar and the expansions may take for something else. -/
  | bare (c : α)
  | dollar (c : α)
  | substitutionBegin
  | substitutionEnd
  | operator (text : List α)
  | newline
  deriving DecidableEq, Repr

inductive Quoting (α : Type*)
  | bare
  | opened
  | escaped
  | dollar (c : α)
  | single
  | double
  | escapedInDouble (backslash : α)
  | dollarInDouble (c : α)
  | comment
  deriving DecidableEq, Repr

inductive Pending (α : Type*)
  | nothing
  | word
  | operator (text : List α)
  deriving DecidableEq, Repr

/-- Where the shell stands between two characters. -/
structure Control (α : Type*) where
  quoting : Quoting α
  pending : Pending α
  /-- The parentheses that are open. -/
  depth : ℕ
  /-- The substitutions around it, the innermost first: whether each stands in double quotes, and
  the parentheses open outside of it. -/
  outer : List (Bool × ℕ)
  deriving DecidableEq, Repr

/-- Where it stands after reading on, and what it has found. -/
abbrev Scan (α : Type*) := Option (Control α × List (Event α))

variable {α : Type*}

def Scan.andThen (s : Scan α) (f : Control α → Scan α) : Scan α :=
  s.bind fun p => (f p.1).map fun q => (q.1, p.2 ++ q.2)

namespace Control
variable [DecidableEq α] (A : Alphabet α)

def start : Control α := ⟨.bare, .nothing, 0, []⟩

/-- The token that was being read is complete. -/
def delimit (k : Control α) : Scan α :=
  match k.pending with
  | .nothing => some (k, [])
  | .word => some ({ k with pending := .nothing }, [.wordEnd])
  | .operator text =>
    if text ∈ A.hereDocuments then none else some ({ k with pending := .nothing }, [.operator text])

/-- The word that is being read goes on, and one begins if none is. -/
def inWord (quoting : Quoting α) (found : List (Event α)) (k : Control α) : Scan α :=
  match k.pending with
  | .word => some ({ k with quoting := quoting }, found)
  | _ => (k.delimit A).map fun p => ({ p.1 with quoting := quoting, pending := .word }, p.2 ++ .wordBegin :: found)

def beginOperator (c : α) (k : Control α) : Scan α :=
  (k.delimit A).map fun p => ({ p.1 with pending := .operator [c] }, p.2)

/-- An operator is as long as it can be. -/
def inOperator (c : α) (k : Control α) : Scan α :=
  match k.pending with
  | .operator text =>
    if ∃ o ∈ A.operators, (text ++ [c]).isPrefixOf o then some ({ k with pending := .operator (text ++ [c]) }, [])
    else k.beginOperator A c
  | _ => k.beginOperator A c

def openSubstitution (inDouble : Bool) (k : Control α) : Scan α :=
  some (⟨.opened, .nothing, 0, (inDouble, k.depth) :: k.outer⟩, [.substitutionBegin])

def readBare (c : α) (k : Control α) : Scan α :=
  match A.classify c with
  | .nul | .backquote => none
  | .newline => (k.delimit A).map fun p => (p.1, p.2 ++ [.newline])
  | .blank => k.delimit A
  | .single => k.inWord A .single []
  | .double => k.inWord A .double []
  | .backslash => some ({ k with quoting := .escaped }, [])
  | .dollar => k.inWord A (.dollar c) []
  | .hash =>
    -- In the middle of a word it is a character like any other.
    if k.pending = .word then k.inWord A .bare [.bare c]
    else (k.delimit A).map fun p => ({ p.1 with quoting := .comment }, p.2)
  | .lparen => (k.inOperator A c).map fun p => ({ p.1 with depth := k.depth + 1 }, p.2)
  | .rparen =>
    match k.depth, k.outer with
    | 0, (inDouble, depth) :: outer =>
      (k.delimit A).map fun p =>
        (⟨if inDouble then .double else .bare, .word, depth, outer⟩, p.2 ++ [.substitutionEnd])
    | depth, _ => (k.inOperator A c).map fun p => ({ p.1 with depth := depth - 1 }, p.2)
  | .operator => k.inOperator A c
  | .lbrace | .plain => k.inWord A .bare [.bare c]

def readDouble (c : α) (k : Control α) : Scan α :=
  match A.classify c with
  | .nul | .backquote => none
  | .double => some ({ k with quoting := .bare }, [])
  | .backslash => some ({ k with quoting := .escapedInDouble c }, [])
  | .dollar => some ({ k with quoting := .dollarInDouble c }, [])
  | _ => some ({ k with quoting := .double }, [.quoted c])

def step (c : α) (k : Control α) : Scan α :=
  match k.quoting with
  | .bare => k.readBare A c
  | .opened => if A.classify c = .lparen then none else { k with quoting := .bare }.readBare A c
  | .escaped =>
    match A.classify c with
    | .nul => none
    | .newline => some ({ k with quoting := .bare }, [])
    | _ => k.inWord A .bare [.quoted c]
  | .dollar d =>
    match A.classify c with
    | .lparen => k.openSubstitution false
    | .lbrace | .single | .double | .backslash => none
    | _ => Scan.andThen (k.inWord A .bare [.dollar d]) (readBare A c)
  | .single =>
    match A.classify c with
    | .nul => none
    | .single => some ({ k with quoting := .bare }, [])
    | _ => some (k, [.quoted c])
  | .double => k.readDouble A c
  | .escapedInDouble backslash =>
    match A.classify c with
    | .nul => none
    | .newline => some ({ k with quoting := .double }, [])
    | .dollar | .backquote | .double | .backslash => some ({ k with quoting := .double }, [.quoted c])
    | _ => some ({ k with quoting := .double }, [.quoted backslash, .quoted c])
  | .dollarInDouble d =>
    match A.classify c with
    | .lparen => k.openSubstitution true
    | .lbrace | .backslash => none
    | _ => Scan.andThen (some ({ k with quoting := .double }, [.dollar d])) (readDouble A c)
  | .comment =>
    match A.classify c with
    | .nul => none
    | .newline => { k with quoting := .bare }.readBare A c
    | _ => some (k, [])

def read (k : Control α) : List α → Scan α
  | [] => some (k, [])
  | c :: text => Scan.andThen (k.step A c) fun k => read k text

/-- The script ends here. -/
def finish (k : Control α) : Option (List (Event α)) :=
  match k.quoting, k.outer with
  | .bare, [] | .comment, [] => (k.delimit A).map Prod.snd
  | .dollar d, [] => (Scan.andThen (k.inWord A .bare [.dollar d]) (delimit A)).map Prod.snd
  | _, _ => none

/-- All that is found from here to the end of the script. -/
def script (k : Control α) (text : List α) : Option (List (Event α)) :=
  (k.read A text).bind fun p => (p.1.finish A).map (p.2 ++ ·)

end Control

/-- What the shell finds in a script. -/
def Alphabet.transcript [DecidableEq α] (A : Alphabet α) (text : List α) : Option (List (Event α)) :=
  Control.start.script A text

/-- A text that does not go on with the word before it. -/
def Alphabet.Delimited (A : Alphabet α) : List α → Prop
  | [] => True
  | c :: _ => A.classify c ∈ [.newline, .blank, .lparen, .rparen, .operator]

instance (A : Alphabet α) : DecidablePred A.Delimited
  | [] => .isTrue trivial
  | c :: _ => inferInstanceAs (Decidable (A.classify c ∈ _))

section Lemmas
variable {A : Alphabet α} {k : Control α} {c : α} {text rest : List α} {found : List (Event α)}

@[simp] theorem Scan.andThen_some (k : Control α) (found : List (Event α)) (f : Control α → Scan α) :
    Scan.andThen (some (k, found)) f = (f k).map fun q => (q.1, found ++ q.2) := rfl

theorem Scan.andThen_assoc (s : Scan α) (f g : Control α → Scan α) :
    (s.andThen f).andThen g = s.andThen fun k => (f k).andThen g := by
  cases s with
  | none => rfl
  | some p =>
    obtain ⟨k, found⟩ := p
    cases hf : f k with
    | none => simp [andThen, hf]
    | some q =>
      cases hg : g q.1 with
      | none => simp [andThen, hf, hg]
      | some r => simp [andThen, hf, hg]

namespace Control
variable [DecidableEq α]

theorem read_append (k : Control α) (text rest : List α) :
    k.read A (text ++ rest) = Scan.andThen (k.read A text) fun k => k.read A rest := by
  induction text generalizing k with
  | nil =>
    rw [List.nil_append, read, Scan.andThen_some]
    cases k.read A rest <;> rfl
  | cons c text ih =>
    rw [List.cons_append, read, read, Scan.andThen_assoc]
    simp only [ih]

/-- Reading on is reading the rest of the script from where the first part ends. -/
theorem script_append {k k' : Control α} (h : k.read A text = some (k', found)) :
    k.script A (text ++ rest) = (k'.script A rest).map (found ++ ·) := by
  rw [script, script, read_append, h, Scan.andThen_some]
  cases k'.read A rest with
  | none => rfl
  | some q => simp [Function.comp_def]

/-- Between single quotes every character stands for itself. -/
theorem read_single (hsingle : k.quoting = .single) (htext : ∀ c ∈ text, A.classify c ∉ [.nul, .single]) :
    k.read A text = some (k, text.map .quoted) := by
  induction text with
  | nil => rfl
  | cons c text ih =>
    have hc : k.step A c = some (k, [.quoted c]) := by
      have hclass := htext c (by simp)
      rw [step, hsingle]
      cases hcase : A.classify c <;> simp_all
    rw [read, hc, Scan.andThen_some, ih fun d hd => htext d (by simp [hd])]
    rfl

section Quotes
variable {q b : α} {parts : List (List α)}

/-- A single quote outside of the quotes, escaped, between the end of one quotation and the start
of the next. -/
theorem read_reopened (hq : A.classify q = .single) (hb : A.classify b = .backslash) (hsingle : k.quoting = .single)
    (hword : k.pending = .word) : k.read A [q, b, q, q] = some (k, [.quoted q]) := by
  obtain ⟨quoting, pending, depth, outer⟩ := k
  obtain rfl : quoting = .single := hsingle
  obtain rfl : pending = .word := hword
  simp [read, step, readBare, inWord, hq, hb]

theorem read_parts (hq : A.classify q = .single) (hb : A.classify b = .backslash)
    (hparts : ∀ part ∈ parts, ∀ c ∈ part, A.classify c ∉ [.nul, .single]) (hsingle : k.quoting = .single)
    (hword : k.pending = .word) :
    k.read A ([q, b, q, q].intercalate parts) = some (k, ([q].intercalate parts).map .quoted) := by
  induction parts with
  | nil => rfl
  | cons part parts ih =>
    have hpart := read_single hsingle (hparts part (by simp))
    have hrest := ih fun part' h => hparts part' (by simp [h])
    cases parts with
    | nil => simpa [List.intercalate] using hpart
    | cons next parts =>
      rw [List.intercalate_cons_cons, List.intercalate_cons_cons, read_append, read_append, hpart, Scan.andThen_some,
        read_reopened hq hb hsingle hword, Option.map_some, Scan.andThen_some, hrest]
      simp

/-- A quoted text is read as characters of one word, wherever it stands. -/
theorem read_quoted (hq : A.classify q = .single) (hb : A.classify b = .backslash)
    (hparts : ∀ part ∈ parts, ∀ c ∈ part, A.classify c ∉ [.nul, .single]) (hbare : k.quoting = .bare) :
    k.read A ([q] ++ [q, b, q, q].intercalate parts ++ [q]) =
      k.inWord A .bare (([q].intercalate parts).map .quoted) := by
  obtain ⟨quoting, pending, depth, outer⟩ := k
  obtain rfl : quoting = .bare := hbare
  have hclose : ∀ k : Control α, k.quoting = .single → k.step A q = some ({ k with quoting := .bare }, []) := by
    intro k hsingle
    simp [step, hsingle, hq]
  have hopen : ∀ pending, (Control.mk .bare pending depth outer).step A q =
      (Control.mk .bare pending depth outer).inWord A .single [] := by
    intro pending
    simp [step, readBare, hq]
  have hfrom : ∀ k : Control α, k.quoting = .single → k.pending = .word →
      k.read A ([q, b, q, q].intercalate parts ++ [q]) =
        some ({ k with quoting := .bare }, ([q].intercalate parts).map .quoted) := by
    intro k hsingle hword
    rw [read_append, read_parts hq hb hparts hsingle hword, Scan.andThen_some, read, hclose k hsingle]
    simp [read]
  rw [List.append_assoc, List.singleton_append, read, hopen]
  cases pending with
  | nothing => simp [inWord, delimit, hfrom]
  | word => simp [inWord, hfrom]
  | operator operator =>
    by_cases hhere : operator ∈ A.hereDocuments
    · simp [inWord, delimit, hhere, Scan.andThen]
    · simp [inWord, delimit, hhere, hfrom]

end Quotes

/-- What delimits a word ends it before anything else. -/
theorem readBare_of_delimiter (hc : A.classify c ∈ [.newline, .blank, .lparen, .rparen, .operator])
    (hword : k.pending = .word) :
    k.readBare A c = Scan.andThen (some ({ k with pending := .nothing }, [.wordEnd])) (readBare A c) := by
  obtain ⟨quoting, pending, depth, outer⟩ := k
  obtain rfl : pending = .word := hword
  cases hcase : A.classify c <;> simp_all only [List.mem_cons, List.not_mem_nil, reduceCtorEq, or_false, or_true]
  case newline => simp [readBare, hcase, delimit]
  case blank => simp [readBare, hcase, delimit]
  case lparen => simp [readBare, hcase, inOperator, beginOperator, delimit]
  case operator => simp [readBare, hcase, inOperator, beginOperator, delimit]
  case rparen =>
    cases depth with
    | zero => cases outer <;> simp [readBare, hcase, inOperator, beginOperator, delimit]
    | succ depth => simp [readBare, hcase, inOperator, beginOperator, delimit]

/-- A word ends where what follows does not go on with it. -/
theorem script_of_delimited (hrest : A.Delimited rest) (hbare : k.quoting = .bare) (hword : k.pending = .word) :
    k.script A rest = ({ k with pending := .nothing }.script A rest).map (.wordEnd :: ·) := by
  cases rest with
  | nil =>
    obtain ⟨quoting, pending, depth, outer⟩ := k
    obtain rfl : quoting = .bare := hbare
    obtain rfl : pending = .word := hword
    cases outer <;> simp [script, read, finish, delimit]
  | cons c rest =>
    have hstep : k.step A c =
        Scan.andThen (some ({ k with pending := .nothing }, [.wordEnd])) (step A c) := by
      have hstep := readBare_of_delimiter hrest hword
      simpa only [step, hbare, Scan.andThen_some] using hstep
    rw [script, script, read, hstep, Scan.andThen_assoc, Scan.andThen_some, ← read]
    cases ({ k with pending := .nothing }.read A (c :: rest)) with
    | none => rfl
    | some p => simp [Function.comp_def]

/-- A text that is read as a word by itself, between a place where no word has begun and one where
it cannot go on, is one word there. -/
theorem script_word (htext : k.read A text = k.inWord A .bare found) (hbare : k.quoting = .bare)
    (hbetween : k.pending ≠ .word) (hrest : A.Delimited rest) : k.script A (text ++ rest) =
      (k.delimit A).bind fun p => (p.1.script A rest).map fun rest =>
        p.2 ++ (Event.wordBegin :: found ++ [Event.wordEnd]) ++ rest := by
  have hbegun : ∀ ended : List (Event α), k.read A text =
      some ({ k with quoting := .bare, pending := .word }, ended ++ .wordBegin :: found) →
      k.script A (text ++ rest) = ({ k with quoting := .bare, pending := .nothing }.script A rest).map fun rest =>
        ended ++ (Event.wordBegin :: found ++ [Event.wordEnd]) ++ rest := by
    intro ended hread
    rw [script_append hread, script_of_delimited hrest rfl rfl, Option.map_map]
    congr 1
    funext rest
    simp
  obtain ⟨quoting, pending, depth, outer⟩ := k
  obtain rfl : quoting = .bare := hbare
  cases pending with
  | word => exact absurd rfl hbetween
  | nothing => exact hbegun [] (htext.trans rfl)
  | operator operator =>
    by_cases hhere : operator ∈ A.hereDocuments
    · simp only [inWord, delimit, if_pos hhere, Option.map_none] at htext
      simp [script, read_append, htext, Scan.andThen, delimit, hhere]
    · have hread := hbegun [.operator operator] (by simp [htext, inWord, delimit, hhere])
      simpa [delimit, hhere] using hread

end Control

end Lemmas

end NetworkHealth.Shell
