import Mathlib.Algebra.Order.Ring.Int
import Mathlib.Data.Int.ConditionallyCompleteOrder
import Mathlib.Data.List.Basic
import Mathlib.Data.String.Basic
import Mathlib.Order.Lattice.Nat

/-! # Words of a shell command

Token recognition and quoting of the POSIX shell: blanks, newlines, operators and comments
between words, the backslash, single and double quotes and backquotes in them. A symbol of a
word is literal, or active where an expansion may follow from it. A value that a command is
given stands in it as symbols that are all literal. -/

namespace ShellWords

/-- A symbol of a word, after quote removal. -/
inductive WordChar where
  | literal (symbol : Char)
  | active (symbol : Char)
deriving DecidableEq

inductive Token where
  | word (chars : List WordChar)
  | operator (symbols : List Char)
  | newline
deriving DecidableEq

/-- What is open at some point of a command. -/
inductive Pending where
  /-- Not quoted, in a word or in none. -/
  | plain (chars : Option (List WordChar))
  | escaped (chars : Option (List WordChar))
  | single (chars : List WordChar)
  | double (chars : List WordChar)
  | doubleEscaped (chars : List WordChar)
  | backquote (chars : List WordChar)
  | operator (symbols : List Char)
  | comment
deriving DecidableEq

structure Lexer where
  tokens : List Token := []
  pending : Pending := .plain none
deriving DecidableEq

def isBlank (symbol : Char) : Bool := symbol = ' ' || symbol = '\t'

def isOperator (symbol : Char) : Bool :=
  ['|', '&', ';', '<', '>', '(', ')'].contains symbol

/-- Symbols that begin an expansion anywhere in a word. -/
def isActive (symbol : Char) : Bool := ['$', '*', '?', '['].contains symbol

/-- The operators of more than one symbol. -/
def operators : List (List Char) :=
  [['&', '&'], ['|', '|'], [';', ';'], ['<', '<'], ['>', '>'], ['<', '&'], ['>', '&'],
    ['<', '>'], ['>', '|'], ['<', '<', '-']]

/-- The tokens with the word that ends here, if there is one. -/
def delimit (tokens : List Token) (chars : Option (List WordChar)) : List Token :=
  tokens ++ (chars.map .word).toList

/-- One more symbol of a word, or the first one. -/
def extend (chars : Option (List WordChar)) (char : WordChar) : List WordChar :=
  chars.getD [] ++ [char]

/-- A symbol that is not quoted, in a word or in none. -/
def stepPlain (tokens : List Token) (chars : Option (List WordChar)) (symbol : Char) : Lexer :=
  if symbol = '\n' then ⟨delimit tokens chars ++ [Token.newline], .plain none⟩
  else if isBlank symbol then ⟨delimit tokens chars, .plain none⟩
  else if isOperator symbol then ⟨delimit tokens chars, .operator [symbol]⟩
  else if symbol = '\'' then ⟨tokens, .single (chars.getD [])⟩
  else if symbol = '"' then ⟨tokens, .double (chars.getD [])⟩
  else if symbol = '\\' then ⟨tokens, .escaped chars⟩
  else if symbol = '`' then ⟨tokens, .backquote (extend chars (.active symbol))⟩
  else if symbol = '#' ∧ chars = none then ⟨tokens, .comment⟩
  else if isActive symbol ∨ (symbol = '~' ∧ chars = none) then
    ⟨tokens, .plain (some (extend chars (.active symbol)))⟩
  else ⟨tokens, .plain (some (extend chars (.literal symbol)))⟩

/-- A symbol after a backslash within double quotes. -/
def stepDoubleEscaped (chars : List WordChar) (symbol : Char) : List WordChar :=
  if symbol = '\n' then chars
  else if ['$', '`', '"', '\\'].contains symbol then chars ++ [WordChar.literal symbol]
  else chars ++ [WordChar.literal '\\', .literal symbol]

def step (lexer : Lexer) (symbol : Char) : Lexer :=
  match lexer.pending with
  | .plain chars => stepPlain lexer.tokens chars symbol
  | .escaped chars =>
    if symbol = '\n' then ⟨lexer.tokens, .plain chars⟩
    else ⟨lexer.tokens, .plain (some (extend chars (.literal symbol)))⟩
  | .single chars =>
    if symbol = '\'' then ⟨lexer.tokens, .plain (some chars)⟩
    else ⟨lexer.tokens, .single (chars ++ [WordChar.literal symbol])⟩
  | .double chars =>
    if symbol = '"' then ⟨lexer.tokens, .plain (some chars)⟩
    else if symbol = '\\' then ⟨lexer.tokens, .doubleEscaped chars⟩
    else if symbol = '$' ∨ symbol = '`' then
      ⟨lexer.tokens, .double (chars ++ [WordChar.active symbol])⟩
    else ⟨lexer.tokens, .double (chars ++ [WordChar.literal symbol])⟩
  | .doubleEscaped chars => ⟨lexer.tokens, .double (stepDoubleEscaped chars symbol)⟩
  | .backquote chars =>
    if symbol = '`' then ⟨lexer.tokens, .plain (some (chars ++ [WordChar.active symbol]))⟩
    else ⟨lexer.tokens, .backquote (chars ++ [WordChar.active symbol])⟩
  | .operator symbols =>
    if operators.contains (symbols ++ [symbol]) then
      ⟨lexer.tokens, .operator (symbols ++ [symbol])⟩
    else stepPlain (lexer.tokens ++ [Token.operator symbols]) none symbol
  | .comment =>
    if symbol = '\n' then ⟨lexer.tokens ++ [Token.newline], .plain none⟩
    else lexer

def run (lexer : Lexer) (text : List Char) : Lexer :=
  text.foldl step lexer

/-- The tokens at the end of a command; none where a quotation is left open. -/
def finish (lexer : Lexer) : Option (List Token) :=
  match lexer.pending with
  | .plain chars => some (delimit lexer.tokens chars)
  | .operator symbols => some (lexer.tokens ++ [Token.operator symbols])
  | .comment => some lexer.tokens
  | _ => none

/-- Where no quotation and no comment is open. -/
def outside (lexer : Lexer) : Bool :=
  match lexer.pending with
  | .plain _ => true
  | .operator _ => true
  | _ => false

/-- A value as it is, where no quotation is open: literal symbols of a word. -/
def stepValue (lexer : Lexer) (value : List Char) : Lexer :=
  match lexer.pending with
  | .plain chars =>
    ⟨lexer.tokens, .plain (some (chars.getD [] ++ value.map .literal))⟩
  | .operator symbols =>
    ⟨lexer.tokens ++ [Token.operator symbols], .plain (some (value.map .literal))⟩
  | _ => lexer

variable {lexer : Lexer} {tokens : List Token} {chars : List WordChar} {text : List Char}
  {symbol : Char}

theorem run_append (lexer : Lexer) (left right : List Char) :
    run lexer (left ++ right) = run (run lexer left) right :=
  List.foldl_append

@[simp] theorem run_nil (lexer : Lexer) : run lexer [] = lexer := rfl

@[simp] theorem run_cons (lexer : Lexer) (symbol : Char) (text : List Char) :
    run lexer (symbol :: text) = run (step lexer symbol) text := rfl

/-- A quote opens a quotation where none is open. -/
theorem step_quote_of_outside (houtside : outside lexer) :
    ∃ tokens chars, step lexer '\'' = ⟨tokens, .single chars⟩ ∧
      ∀ value, stepValue lexer value = ⟨tokens, .plain (some (chars ++ value.map .literal))⟩ := by
  obtain ⟨done, pending⟩ := lexer
  cases pending with
  | plain chars =>
      exact ⟨done, chars.getD [], rfl, fun _ => rfl⟩
  | operator symbols =>
      refine ⟨done ++ [Token.operator symbols], [], ?_, fun _ => rfl⟩
      have hnone : operators.contains (symbols ++ ['\'']) = false := by
        rw [List.contains_eq_mem, decide_eq_false_iff_not, operators]
        intro hmem
        have hlast : ∀ operator ∈ operators, operator.getLast? ≠ some '\'' := by decide
        exact hlast _ hmem List.getLast?_concat
      rw [step]
      dsimp only
      rw [hnone]
      rfl
  | escaped _ => exact absurd houtside Bool.false_ne_true
  | single _ => exact absurd houtside Bool.false_ne_true
  | double _ => exact absurd houtside Bool.false_ne_true
  | doubleEscaped _ => exact absurd houtside Bool.false_ne_true
  | backquote _ => exact absurd houtside Bool.false_ne_true
  | comment => exact absurd houtside Bool.false_ne_true

section Shape

/-- What is open, without the words so far. -/
def shape : Pending → Pending
  | .plain chars => .plain (chars.map fun _ => [])
  | .escaped chars => .escaped (chars.map fun _ => [])
  | .single _ => .single []
  | .double _ => .double []
  | .doubleEscaped _ => .doubleEscaped []
  | .backquote _ => .backquote []
  | .operator symbols => .operator symbols
  | .comment => .comment

/-- Branches of the same shapes under the same condition. -/
theorem shape_ite {p q : Prop} [Decidable p] [Decidable q] {left right left' right' : Lexer}
    (hiff : p ↔ q) (hleft : shape left.pending = shape left'.pending)
    (hright : shape right.pending = shape right'.pending) :
    shape (if p then left else right).pending = shape (if q then left' else right').pending := by
  by_cases h : p
  · rw [if_pos h, if_pos (hiff.mp h)]
    exact hleft
  · rw [if_neg h, if_neg (mt hiff.mpr h)]
    exact hright

theorem shape_stepPlain (tokens : List Token) (chars : Option (List WordChar)) (symbol : Char) :
    shape (stepPlain tokens chars symbol).pending =
      shape (stepPlain [] (chars.map fun _ => []) symbol).pending := by
  have hnone : chars = none ↔ (chars.map fun _ => ([] : List WordChar)) = none :=
    Option.map_eq_none_iff.symm
  rw [stepPlain, stepPlain]
  apply shape_ite Iff.rfl
  · rfl
  apply shape_ite Iff.rfl
  · rfl
  apply shape_ite Iff.rfl
  · rfl
  apply shape_ite Iff.rfl
  · rfl
  apply shape_ite Iff.rfl
  · rfl
  apply shape_ite Iff.rfl
  · cases chars <;> rfl
  apply shape_ite Iff.rfl
  · rfl
  apply shape_ite (and_congr_right fun _ => hnone)
  · rfl
  apply shape_ite (or_congr_right (and_congr_right fun _ => hnone))
  · rfl
  · rfl

/-- What is open next depends on what is open, not on the words so far. -/
theorem shape_step (lexer : Lexer) (symbol : Char) :
    shape (step lexer symbol).pending = shape (step ⟨[], shape lexer.pending⟩ symbol).pending := by
  obtain ⟨tokens, pending⟩ := lexer
  cases pending with
  | plain chars => exact shape_stepPlain tokens chars symbol
  | escaped chars =>
      apply shape_ite Iff.rfl
      · cases chars <;> rfl
      · rfl
  | single chars =>
      apply shape_ite Iff.rfl
      · rfl
      · rfl
  | double chars =>
      apply shape_ite Iff.rfl
      · rfl
      apply shape_ite Iff.rfl
      · rfl
      apply shape_ite Iff.rfl
      · rfl
      · rfl
  | doubleEscaped chars => rfl
  | backquote chars =>
      apply shape_ite Iff.rfl
      · rfl
      · rfl
  | operator symbols =>
      apply shape_ite Iff.rfl
      · rfl
      exact (shape_stepPlain _ none symbol).trans (shape_stepPlain _ none symbol).symm
  | comment =>
      apply shape_ite Iff.rfl
      · rfl
      · rfl

theorem outside_congr {left right : Lexer} (h : shape left.pending = shape right.pending) :
    outside left = outside right := by
  have hshape : ∀ lexer : Lexer, outside lexer = outside ⟨[], shape lexer.pending⟩ := by
    rintro ⟨tokens, pending⟩
    cases pending <;> rfl
  rw [hshape left, hshape right, h]

end Shape

section Words

/-- Symbols that stand for themselves within a word. -/
def isOrdinary (symbol : Char) : Bool :=
  !(symbol = '\n' || isBlank symbol || isOperator symbol || symbol = '\'' || symbol = '"' ||
    symbol = '\\' || symbol = '`' || isActive symbol)

/-- Symbols that begin a comment or an expansion only at the start of a word. -/
def startsWord (symbol : Char) : Bool := symbol ≠ '#' && symbol ≠ '~'

/-- A text that the shell reads as one word that stands for itself. -/
structure PlainWord (text : List Char) : Prop where
  nonempty : text ≠ []
  ordinary : ∀ symbol ∈ text, isOrdinary symbol
  starts : ∀ symbol, text.head? = some symbol → startsWord symbol

theorem stepPlain_of_ordinary {chars : Option (List WordChar)} (h : isOrdinary symbol)
    (hstart : chars = none → startsWord symbol) :
    stepPlain tokens chars symbol =
      ⟨tokens, .plain (some (extend chars (.literal symbol)))⟩ := by
  simp only [isOrdinary, Bool.not_eq_true', Bool.or_eq_false_iff, decide_eq_false_iff_not] at h
  obtain ⟨⟨⟨⟨⟨⟨⟨hnewline, hblank⟩, hoperator⟩, hquote⟩, hdouble⟩, hescape⟩, hbackquote⟩, hactive⟩ :=
    h
  have hcomment : ¬ (symbol = '#' ∧ chars = none) := by
    rintro ⟨rfl, hnone⟩
    exact absurd (hstart hnone) (by decide)
  have htilde : ¬ (symbol = '~' ∧ chars = none) := by
    rintro ⟨rfl, hnone⟩
    exact absurd (hstart hnone) (by decide)
  rw [stepPlain, if_neg hnewline, hblank, hoperator, hactive, if_neg hquote, if_neg hdouble,
    if_neg hescape, if_neg hbackquote, if_neg hcomment]
  simp [htilde]

theorem run_ordinary (h : ∀ symbol ∈ text, isOrdinary symbol) :
    run ⟨tokens, .plain (some chars)⟩ text =
      ⟨tokens, .plain (some (chars ++ text.map .literal))⟩ := by
  induction text generalizing chars with
  | nil => rw [run_nil, List.map_nil, List.append_nil]
  | cons first rest ih =>
      rw [run_cons, step]
      dsimp only
      rw [stepPlain_of_ordinary (h first List.mem_cons_self) (fun hnone => by cases hnone),
        ih (fun symbol hmem => h symbol (List.mem_cons_of_mem _ hmem)), extend,
        Option.getD_some, List.append_assoc, List.singleton_append, List.map_cons]

/-- A plain word is read as it is. -/
theorem PlainWord.run_eq (h : PlainWord text) :
    run ⟨tokens, .plain none⟩ text = ⟨tokens, .plain (some (text.map .literal))⟩ := by
  cases text with
  | nil => exact absurd rfl h.nonempty
  | cons first rest =>
      rw [run_cons, step]
      dsimp only
      rw [stepPlain_of_ordinary (h.ordinary first List.mem_cons_self)
        (fun _ => h.starts first rfl),
        run_ordinary fun symbol hmem => h.ordinary symbol (List.mem_cons_of_mem _ hmem)]
      rfl

/-- After a plain word, where no quotation is open, a word is open. -/
theorem PlainWord.shape_run (h : PlainWord text) (hminus : text.head? ≠ some '-')
    (houtside : outside lexer) : shape (run lexer text).pending = .plain (some []) := by
  obtain ⟨tokens, pending⟩ := lexer
  cases pending with
  | plain chars =>
      cases chars with
      | none =>
          rw [h.run_eq]
          rfl
      | some chars =>
          rw [run_ordinary h.ordinary]
          rfl
  | operator symbols =>
      cases text with
      | nil => exact absurd rfl h.nonempty
      | cons first rest =>
          have hnone : operators.contains (symbols ++ [first]) = false := by
            have hlast : ∀ operator ∈ operators, ∀ symbol, operator.getLast? = some symbol →
                isOperator symbol ∨ symbol = '-' := by
              intro operator hmem symbol
              simp only [operators, List.mem_cons, List.not_mem_nil, or_false] at hmem
              rcases hmem with rfl | rfl | rfl | rfl | rfl | rfl | rfl | rfl | rfl | rfl <;>
                · intro hsymbol
                  cases hsymbol
                  decide
            rw [List.contains_eq_mem, decide_eq_false_iff_not]
            intro hmem
            obtain hoperator | rfl := hlast _ hmem first List.getLast?_concat
            · have hordinary := h.ordinary first List.mem_cons_self
              simp [isOrdinary, hoperator] at hordinary
            · exact hminus rfl
          have hstep : run ⟨tokens, .operator symbols⟩ (first :: rest) =
              run ⟨tokens ++ [Token.operator symbols], .plain none⟩ (first :: rest) := by
            rw [run_cons, run_cons]
            simp only [step, hnone]
            rfl
          rw [hstep, h.run_eq]
          rfl
  | escaped _ => exact absurd houtside Bool.false_ne_true
  | single _ => exact absurd houtside Bool.false_ne_true
  | double _ => exact absurd houtside Bool.false_ne_true
  | doubleEscaped _ => exact absurd houtside Bool.false_ne_true
  | backquote _ => exact absurd houtside Bool.false_ne_true
  | comment => exact absurd houtside Bool.false_ne_true

/-- After a value, where no quotation is open, a word is open. -/
theorem shape_stepValue (houtside : outside lexer) (value : List Char) :
    shape (stepValue lexer value).pending = .plain (some []) := by
  obtain ⟨tokens, pending⟩ := lexer
  cases pending with
  | plain chars => rfl
  | operator symbols => rfl
  | escaped _ => exact absurd houtside Bool.false_ne_true
  | single _ => exact absurd houtside Bool.false_ne_true
  | double _ => exact absurd houtside Bool.false_ne_true
  | doubleEscaped _ => exact absurd houtside Bool.false_ne_true
  | backquote _ => exact absurd houtside Bool.false_ne_true
  | comment => exact absurd houtside Bool.false_ne_true

/-- How many symbols of a word are literal. -/
def literals (chars : List WordChar) : Nat :=
  chars.countP fun char =>
    match char with
    | .literal _ => true
    | .active _ => false

def Token.literals : Token → Nat
  | .word chars => ShellWords.literals chars
  | _ => 0

/-- The literal symbols so far, and the backslash that may still be one of them. -/
def Pending.literals : Pending → Nat
  | .plain chars => ShellWords.literals (chars.getD [])
  | .escaped chars => ShellWords.literals (chars.getD [])
  | .single chars => ShellWords.literals chars
  | .double chars => ShellWords.literals chars
  | .doubleEscaped chars => ShellWords.literals chars + 1
  | .backquote chars => ShellWords.literals chars
  | .operator _ => 0
  | .comment => 0

def weight (lexer : Lexer) : Nat :=
  (lexer.tokens.map Token.literals).sum + lexer.pending.literals

theorem literals_append_literal (chars : List WordChar) (symbol : Char) :
    literals (chars ++ [WordChar.literal symbol]) = literals chars + 1 := by
  rw [literals, List.countP_append]
  rfl

theorem literals_append_active (chars : List WordChar) (symbol : Char) :
    literals (chars ++ [WordChar.active symbol]) = literals chars := by
  rw [literals, List.countP_append]
  rfl

theorem sum_delimit (tokens : List Token) (chars : Option (List WordChar)) :
    ((delimit tokens chars).map Token.literals).sum =
      (tokens.map Token.literals).sum + literals (chars.getD []) := by
  cases chars with
  | none => simp [delimit, literals]
  | some chars => simp [delimit, Token.literals]

theorem weight_ite_le {p : Prop} [Decidable p] {left right : Lexer} {bound : Nat}
    (hleft : p → weight left ≤ bound) (hright : ¬ p → weight right ≤ bound) :
    weight (if p then left else right) ≤ bound := by
  by_cases h : p
  · rw [if_pos h]
    exact hleft h
  · rw [if_neg h]
    exact hright h

/-- A symbol that is not quoted adds a literal symbol only if it is ordinary. -/
theorem weight_stepPlain_le (tokens : List Token) (chars : Option (List WordChar))
    (symbol : Char) :
    weight (stepPlain tokens chars symbol) ≤ weight ⟨tokens, .plain chars⟩ +
      if isOrdinary symbol ∧ (chars = none → startsWord symbol) then 1 else 0 := by
  by_cases hgood : isOrdinary symbol ∧ (chars = none → startsWord symbol)
  · rw [if_pos hgood, stepPlain_of_ordinary hgood.1 hgood.2]
    simp only [weight, Pending.literals, extend, Option.getD_some, literals_append_literal]
    omega
  · rw [if_neg hgood, Nat.add_zero, stepPlain]
    apply weight_ite_le
    · intro _
      simp [weight, Pending.literals, sum_delimit, Token.literals, literals]
    intro hnewline
    apply weight_ite_le
    · intro _
      simp [weight, Pending.literals, sum_delimit, literals]
    intro hblank
    apply weight_ite_le
    · intro _
      simp [weight, Pending.literals, sum_delimit]
    intro hoperator
    apply weight_ite_le
    · exact fun _ => Nat.le_refl _
    intro hquote
    apply weight_ite_le
    · exact fun _ => Nat.le_refl _
    intro hdouble
    apply weight_ite_le
    · exact fun _ => Nat.le_refl _
    intro hescape
    apply weight_ite_le
    · intro _
      simp [weight, Pending.literals, extend, literals_append_active]
    intro hbackquote
    apply weight_ite_le
    · intro _
      simp [weight, Pending.literals]
    intro hcomment
    apply weight_ite_le
    · intro _
      simp [weight, Pending.literals, extend, literals_append_active]
    -- nothing is left that is not ordinary
    intro hactive
    exfalso
    apply hgood
    rw [not_or] at hactive
    constructor
    · simp [isOrdinary, hnewline, eq_false_of_ne_true hblank, eq_false_of_ne_true hoperator,
        hquote, hdouble, hescape, hbackquote, hactive.1]
    · intro hnone
      rw [startsWord, Bool.and_eq_true, decide_eq_true_eq, decide_eq_true_eq]
      exact ⟨fun h => hcomment ⟨h, hnone⟩, fun h => hactive.2 ⟨h, hnone⟩⟩

theorem literals_stepDoubleEscaped_le (chars : List WordChar) (symbol : Char) :
    literals (stepDoubleEscaped chars symbol) ≤ literals chars + 2 := by
  rw [stepDoubleEscaped]
  split_ifs
  · omega
  · rw [literals_append_literal]
    omega
  · rw [show [WordChar.literal '\\', .literal symbol] =
      [WordChar.literal '\\'] ++ [WordChar.literal symbol] from rfl, ← List.append_assoc]
    have hsymbol := literals_append_literal (chars ++ [WordChar.literal '\\']) symbol
    have hescape := literals_append_literal chars '\\'
    omega

/-- A symbol adds one literal symbol at most. -/
theorem weight_step_le (lexer : Lexer) (symbol : Char) :
    weight (step lexer symbol) ≤ weight lexer + 1 := by
  obtain ⟨tokens, pending⟩ := lexer
  cases pending with
  | plain chars =>
      refine Nat.le_trans (weight_stepPlain_le tokens chars symbol) ?_
      split_ifs <;> omega
  | escaped chars =>
      simp only [step]
      split_ifs
      · simp [weight, Pending.literals]
      · simp [weight, Pending.literals, extend, literals_append_literal]
        omega
  | single chars =>
      simp only [step]
      split_ifs
      · simp [weight, Pending.literals]
      · simp only [weight, Pending.literals, literals_append_literal]
        omega
  | double chars =>
      simp only [step]
      split_ifs
      · simp [weight, Pending.literals]
      · simp only [weight, Pending.literals]
        omega
      · simp [weight, Pending.literals, literals_append_active]
      · simp only [weight, Pending.literals, literals_append_literal]
        omega
  | doubleEscaped chars =>
      have h := literals_stepDoubleEscaped_le chars symbol
      simp only [step, weight, Pending.literals]
      omega
  | backquote chars =>
      simp only [step]
      split_ifs <;>
        simp [weight, Pending.literals, literals_append_active]
  | operator symbols =>
      simp only [step]
      split_ifs
      · simp [weight, Pending.literals]
      · refine Nat.le_trans (weight_stepPlain_le _ none symbol) ?_
        simp only [weight, Pending.literals, List.map_append, List.sum_append]
        split_ifs <;> simp [Token.literals, literals]
  | comment =>
      simp only [step]
      split_ifs <;> simp [weight, Pending.literals, Token.literals, literals]

theorem weight_run_le (lexer : Lexer) (text : List Char) :
    weight (run lexer text) ≤ weight lexer + text.length := by
  induction text generalizing lexer with
  | nil => exact Nat.le_refl _
  | cons first rest ih =>
      rw [run_cons, List.length_cons]
      have hrest := ih (step lexer first)
      have hstep := weight_step_le lexer first
      omega

theorem sum_finish {result : List Token} (h : finish lexer = some result) :
    (result.map Token.literals).sum = weight lexer := by
  obtain ⟨tokens, pending⟩ := lexer
  cases pending with
  | plain chars =>
      cases h
      exact sum_delimit tokens chars
  | operator symbols =>
      cases h
      simp [weight, Pending.literals, Token.literals]
  | comment =>
      cases h
      simp [weight, Pending.literals]
  | escaped _ => cases h
  | single _ => cases h
  | double _ => cases h
  | doubleEscaped _ => cases h
  | backquote _ => cases h

/-- Where every symbol of a text adds a literal symbol, every symbol is ordinary. -/
theorem ordinary_of_weight {chars : Option (List WordChar)}
    (h : weight ⟨tokens, .plain chars⟩ + text.length ≤
      weight (run ⟨tokens, .plain chars⟩ text)) :
    (∀ symbol ∈ text, isOrdinary symbol) ∧
      (chars = none → ∀ symbol, text.head? = some symbol → startsWord symbol) := by
  induction text generalizing chars with
  | nil => exact ⟨fun _ hmem => absurd hmem List.not_mem_nil, fun _ _ hhead => by cases hhead⟩
  | cons first rest ih =>
      rw [run_cons, List.length_cons] at h
      have hrun := weight_run_le (step ⟨tokens, .plain chars⟩ first) rest
      have hstep := weight_stepPlain_le tokens chars first
      have hgood : isOrdinary first ∧ (chars = none → startsWord first) := by
        by_contra hbad
        rw [if_neg hbad] at hstep
        simp only [step] at hrun h
        omega
      have hnext : step ⟨tokens, .plain chars⟩ first =
          ⟨tokens, .plain (some (extend chars (.literal first)))⟩ :=
        stepPlain_of_ordinary hgood.1 hgood.2
      have hweight : weight ⟨tokens, .plain (some (extend chars (.literal first)))⟩ =
          weight ⟨tokens, .plain chars⟩ + 1 := by
        simp only [weight, Pending.literals, extend, Option.getD_some, literals_append_literal]
        omega
      rw [hnext] at h
      obtain ⟨hrest, -⟩ := ih (by rw [hweight]; omega)
      constructor
      · intro symbol hmem
        obtain rfl | hmem := List.mem_cons.mp hmem
        · exact hgood.1
        · exact hrest symbol hmem
      · rintro hnone symbol hhead
        cases hhead
        exact hgood.2 hnone

/-- A text is read as one word that stands for itself exactly if it is a plain word. -/
theorem finish_run_eq_word_iff :
    finish (run ⟨tokens, .plain none⟩ text) = some (tokens ++ [Token.word (text.map .literal)]) ↔
      PlainWord text := by
  constructor
  · intro h
    have hsum := sum_finish h
    have hliterals : literals (text.map .literal) = text.length := by
      rw [literals, List.countP_map]
      exact (List.countP_eq_length.mpr fun _ _ => rfl)
    rw [List.map_append, List.sum_append] at hsum
    obtain ⟨hordinary, hstarts⟩ := @ordinary_of_weight tokens text none (by
      rw [← hsum]
      simp only [weight, Pending.literals, Option.getD_none, List.map_cons, List.map_nil,
        List.sum_cons, List.sum_nil, Token.literals, hliterals]
      simp [literals])
    refine ⟨?_, hordinary, hstarts rfl⟩
    rintro rfl
    have hlength := congrArg (Option.map List.length) h
    simp [finish, delimit] at hlength
  · intro h
    rw [h.run_eq]
    rfl

end Words

end ShellWords
