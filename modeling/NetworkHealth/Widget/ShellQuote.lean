import NetworkHealth.Library.JsonText
import NetworkHealth.Library.Shell

/-! The values that go into the widget's scripts, in single quotes. Whatever the value, the shell
reads it as one word. -/
namespace NetworkHealth.Widget
open Shell

def singleQuote : UInt16 := 0x27

/-- The characters of a script, as the POSIX locale has them. -/
def posix : Alphabet UInt16 where
  classify u :=
    match u.toNat with
    | 0x00 => .nul
    | 0x0a => .newline
    | 0x09 | 0x20 => .blank
    | 0x27 => .single
    | 0x22 => .double
    | 0x5c => .backslash
    | 0x24 => .dollar
    | 0x60 => .backquote
    | 0x23 => .hash
    | 0x28 => .lparen
    | 0x29 => .rparen
    | 0x7b => .lbrace
    | 0x26 | 0x3b | 0x3c | 0x3e | 0x7c => .operator
    | _ => .plain
  operators := ["&&", "||", ";;", "<<", ">>", "<&", ">&", "<>", "<<-", ">|"].map units
  hereDocuments := ["<<", "<<-"].map units

/-- `split` and `join` of strings, with a separator of one character to split at. -/
def shellQuote (value : CodeUnits) : CodeUnits :=
  units "'" ++ (units "'\\''").intercalate (value.splitOn singleQuote) ++ units "'"

theorem classify_singleQuote : posix.classify singleQuote = .single := rfl

theorem classify_backslash : posix.classify backslash = .backslash := rfl

theorem classify_of_ne {u : UInt16} (hnul : u ≠ 0) (hquote : u ≠ singleQuote) :
    posix.classify u ∉ [.nul, .single] := by
  have hnul' : u.toNat ≠ 0 := fun h => hnul (UInt16.toNat_inj.mp h)
  have hquote' : u.toNat ≠ 0x27 := fun h => hquote (UInt16.toNat_inj.mp h)
  simp only [posix]
  split <;> simp_all

/-- What stands between the separators is not one. -/
theorem of_mem_splitOnP {α : Type*} {p : α → Bool} {xs part : List α} (h : part ∈ xs.splitOnP p) :
    ∀ x ∈ part, x ∈ xs ∧ p x = false := by
  induction xs generalizing part with
  | nil => simp_all
  | cons y xs ih =>
    rw [List.splitOnP_cons_eq_if_modifyHead] at h
    cases hy : p y with
    | true =>
      rw [if_pos hy] at h
      rcases List.mem_cons.mp h with rfl | hmem
      · simp
      · exact fun x hx => (ih hmem x hx).imp_left (List.mem_cons_of_mem y)
    | false =>
      rw [if_neg (by simp [hy])] at h
      obtain ⟨first, rest, hsplit⟩ := List.exists_cons_of_ne_nil (List.splitOnP_ne_nil p xs)
      rw [hsplit, List.modifyHead_cons] at h
      rcases List.mem_cons.mp h with rfl | hmem
      · intro x hx
        rcases List.mem_cons.mp hx with rfl | hx
        · exact ⟨by simp, hy⟩
        · exact (ih (by simp [hsplit]) x hx).imp_left (List.mem_cons_of_mem y)
      · exact fun x hx => (ih (by simp [hsplit, hmem]) x hx).imp_left (List.mem_cons_of_mem y)

theorem read_shellQuote {v : CodeUnits} (hv : 0 ∉ v) {k : Control UInt16} (hbare : k.quoting = .bare) :
    k.read posix (shellQuote v) = k.inWord posix .bare (v.map .quoted) := by
  have hparts : ∀ part ∈ v.splitOn singleQuote, ∀ u ∈ part, posix.classify u ∉ [.nul, .single] := by
    intro part hpart u hu
    obtain ⟨hmem, hne⟩ := of_mem_splitOnP hpart u hu
    exact classify_of_ne (fun hzero => hv (hzero ▸ hmem)) (by simpa using hne)
  have hread := Control.read_quoted classify_singleQuote classify_backslash hparts hbare
  rwa [List.intercalate_splitOn] at hread

/-- Where the shell is not within quotes already, it reads a quoted value as the characters of the
value and nothing else. Between words and before a delimiter that is one word, and what is found
before and after it is the same for every value. -/
theorem shellQuote_exact {v : CodeUnits} (hv : 0 ∉ v) :
    (∀ k : Control UInt16, k.quoting = .bare →
      k.read posix (shellQuote v) = k.inWord posix .bare (v.map .quoted)) ∧
    ∀ (before after : CodeUnits) (k : Control UInt16) (found : List (Event UInt16)),
      Control.start.read posix before = some (k, found) → k.quoting = .bare → k.pending ≠ .word →
      posix.Delimited after → posix.transcript (before ++ shellQuote v ++ after) =
        (k.delimit posix).bind fun p => (p.1.script posix after).map fun rest =>
          found ++ p.2 ++ (Event.wordBegin :: v.map .quoted ++ [Event.wordEnd]) ++ rest := by
  refine ⟨fun k => read_shellQuote hv, fun before after k found hbefore hbare hbetween hafter => ?_⟩
  have hword := Control.script_word (read_shellQuote hv hbare) hbare hbetween hafter
  rw [Alphabet.transcript, List.append_assoc, Control.script_append hbefore, hword]
  cases k.delimit posix with
  | none => rfl
  | some p =>
    rw [Option.bind_some, Option.bind_some, Option.map_map]
    congr 1
    funext rest
    simp

/-- A path that would leave its quotes. -/
theorem shellQuote_exact_hostile :
    posix.transcript (units "rm -f " ++ shellQuote (units "'; x #") ++ units "\n") =
      some ([.wordBegin, .bare 114, .bare 109, .wordEnd, .wordBegin, .bare 45, .bare 102, .wordEnd,
        .wordBegin] ++ (units "'; x #").map .quoted ++ [.wordEnd, .newline]) := by
  have hexact := (shellQuote_exact (v := units "'; x #") (by decide)).2 (units "rm -f ") (units "\n") _ _ rfl
    rfl (by decide) (by decide +kernel)
  rw [hexact]
  decide +kernel

end NetworkHealth.Widget
