import Laqista.Lib.Decimal
import Mathlib.Data.List.TakeWhile
import Mathlib.Tactic.Common

/-! # Parser combinators over characters

A parser takes the input and returns a value with the rest of the input, or an error, upon which
another alternative is tried, or it panics, which ends everything. The combinators are those for
complete input: nothing waits for more.

`Reads p text a rest` says that in front of `rest` the parser `p` takes exactly `text` and returns
`a`. The rules compose: `reads_bind` for a sequence, `reads_alt_left` and `reads_alt_right` for a
choice, and `reads_separatedList1` for a list of any length. -/

namespace Laqista.Lib

/-- How a parser ends. -/
inductive Parsed (ε α : Type) where
  | ok (rest : List Char) (value : α)
  | error (err : ε)
  | panic (message : String)
  deriving DecidableEq, Repr

/-- Go on where a parser has ended well. -/
def Parsed.andThen {ε α β : Type} (r : Parsed ε α) (f : List Char → α → Parsed ε β) : Parsed ε β :=
  match r with
  | .ok rest a => f rest a
  | .error err => .error err
  | .panic message => .panic message

def Parser (ε α : Type) : Type := List Char → Parsed ε α

/-- The parsers that can fail. -/
inductive ErrorKind where
  | tag | alpha | digit | takeWhile1 | separatedList
  deriving DecidableEq, Repr

/-- An error type with errors of the combinators; among the errors of the alternatives of a choice
it keeps the last one. -/
class ParseError (ε : Type) where
  fromErrorKind : List Char → ErrorKind → ε

export ParseError (fromErrorKind)

namespace Parser

variable {ε α β γ : Type}

instance monad : Monad (Parser ε) where
  pure a := fun input => .ok input a
  bind p f := fun input => (p input).andThen fun rest a => f a rest

/-- The parser that fails. -/
def fail (err : ε) : Parser ε α := fun _ => .error err

/-- The parser that panics. -/
def panicWith (message : String) : Parser ε α := fun _ => .panic message

/-- The result of a parser on another input. -/
def onInput (p : Parser ε α) (part : List Char) : Parser ε α := fun input =>
  (p part).andThen fun _ a => .ok input a

/-- The second parser is tried where the first one fails. -/
def alt (p q : Parser ε α) : Parser ε α := fun input =>
  match p input with
  | .error _ => q input
  | r => r

/-- The characters in front of the first one that satisfies `p`. -/
def takeTill (p : Char → Bool) : Parser ε (List Char) := fun input =>
  .ok (input.dropWhile fun c => !p c) (input.takeWhile fun c => !p c)

/-! ### What a parser reads -/

/-- In front of `rest`, the parser takes the text and returns the value. -/
def Reads (p : Parser ε α) (text : List Char) (a : α) (rest : List Char) : Prop :=
  p (text ++ rest) = .ok rest a

/-- The parser fails on the input, so that another alternative is tried. -/
def Fails (p : Parser ε α) (input : List Char) : Prop := ∃ err, p input = .error err

theorem reads_pure (a : α) (rest : List Char) : Reads (pure a : Parser ε α) [] a rest := rfl

theorem reads_bind {p : Parser ε α} {f : α → Parser ε β} {t u rest : List Char} {a : α} {b : β}
    (hp : Reads p t a (u ++ rest)) (hf : Reads (f a) u b rest) :
    Reads (p >>= f) (t ++ u) b rest := by
  show (p ((t ++ u) ++ rest)).andThen _ = _
  rw [List.append_assoc, hp]
  exact hf

/-- What comes after the last text of a sequence. -/
theorem reads_bind_last {p : Parser ε α} {f : α → Parser ε β} {t rest : List Char} {a : α} {b : β}
    (hp : Reads p t a rest) (hf : Reads (f a) [] b rest) : Reads (p >>= f) t b rest := by
  rw [← List.append_nil t]
  exact reads_bind hp hf

theorem fails_bind {p : Parser ε α} {f : α → Parser ε β} {input rest : List Char} {a : α}
    (hp : p input = .ok rest a) (hf : Fails (f a) rest) : Fails (p >>= f) input := by
  obtain ⟨err, hf⟩ := hf
  refine ⟨err, ?_⟩
  show (p input).andThen _ = _
  rw [hp]
  exact hf

theorem fails_bind_left {p : Parser ε α} {f : α → Parser ε β} {input : List Char}
    (hp : Fails p input) : Fails (p >>= f) input := by
  obtain ⟨err, hp⟩ := hp
  refine ⟨err, ?_⟩
  show (p input).andThen _ = _
  rw [hp]
  rfl

theorem reads_alt_left {p q : Parser ε α} {t rest : List Char} {a : α} (h : Reads p t a rest) :
    Reads (alt p q) t a rest := by
  unfold Reads alt
  rw [show p (t ++ rest) = .ok rest a from h]

theorem reads_alt_right {p q : Parser ε α} {t rest : List Char} {a : α}
    (hp : Fails p (t ++ rest)) (h : Reads q t a rest) : Reads (alt p q) t a rest := by
  obtain ⟨err, hp⟩ := hp
  unfold Reads alt
  rw [hp]
  exact h

theorem reads_onInput {p : Parser ε α} {part left rest : List Char} {a : α}
    (h : p part = .ok left a) : Reads (onInput p part) [] a rest := by
  unfold Reads onInput
  rw [h]
  rfl

/-! ### The combinators -/

variable [ParseError ε]

/-- Exactly the given text. -/
def tag (t : String) : Parser ε Unit := fun input =>
  if t.toList.isPrefixOf input then .ok (input.drop t.toList.length) ()
  else .error (fromErrorKind input .tag)

/-- As many characters as satisfy `p`, and at least one. -/
def takeWhile1 (kind : ErrorKind) (p : Char → Bool) : Parser ε (List Char) := fun input =>
  match input.takeWhile p with
  | [] => .error (fromErrorKind input kind)
  | c :: cs => .ok (input.dropWhile p) (c :: cs)

/-- ASCII letters. -/
def alpha1 : Parser ε (List Char) := takeWhile1 .alpha Char.isAlpha

/-- ASCII digits. -/
def digit1 : Parser ε (List Char) := takeWhile1 .digit Char.isDigit

/-- An unsigned integer below the bound of its type. -/
def unsigned (bound : ℕ) : Parser ε ℕ := fun input =>
  match input.takeWhile Char.isDigit with
  | [] => .error (fromErrorKind input .digit)
  | c :: cs =>
    if decimal (c :: cs) < bound then .ok (input.dropWhile Char.isDigit) (decimal (c :: cs))
    else .error (fromErrorKind input .digit)

/-- A signed integer with `-bound ≤ n < bound`. -/
def signed (bound : ℕ) : Parser ε ℤ := fun input =>
  match input with
  | '-' :: rest =>
    match unsigned (ε := ε) (bound + 1) rest with
    | .ok rest n => .ok rest (-n)
    | .error _ => .error (fromErrorKind input .digit)
    | .panic message => .panic message
  | '+' :: rest =>
    match unsigned (ε := ε) bound rest with
    | .ok rest n => .ok rest n
    | .error _ => .error (fromErrorKind input .digit)
    | .panic message => .panic message
  | _ =>
    match unsigned (ε := ε) bound input with
    | .ok rest n => .ok rest n
    | .error err => .error err
    | .panic message => .panic message

/-- The elements after the first one. Each turn consumes the separator, so the length of the input
is enough fuel. -/
def separatedLoop (sep : Parser ε Unit) (item : Parser ε α) : ℕ → List α → Parser ε (List α)
  | 0, res, input => .ok input res
  | fuel + 1, res, input =>
    match sep input with
    | .error _ => .ok input res
    | .panic message => .panic message
    | .ok i1 _ =>
      if i1.length = input.length then .error (fromErrorKind i1 .separatedList)
      else
        match item i1 with
        | .error _ => .ok input res
        | .panic message => .panic message
        | .ok i2 a => separatedLoop sep item fuel (res ++ [a]) i2

/-- A list with at least one element. It ends before a separator that no element follows. -/
def separatedList1 (sep : Parser ε Unit) (item : Parser ε α) : Parser ε (List α) := fun input =>
  (item input).andThen fun rest a => separatedLoop sep item rest.length [a] rest

/-! ### Reading texts and numbers -/

theorem reads_tag (t : String) (rest : List Char) :
    Reads (tag t : Parser ε Unit) t.toList () rest := by
  unfold Reads tag
  rw [if_pos (by simp), List.drop_left]

/-- A text fails in front of another first character. -/
theorem fails_tag {t : String} {c : Char} {cs input : List Char} (ht : t.toList = c :: cs)
    (h : input.head? ≠ some c) : Fails (tag t : Parser ε Unit) input := by
  refine ⟨fromErrorKind input .tag, ?_⟩
  unfold tag
  rw [ht, if_neg]
  rcases input with _ | ⟨d, ds⟩
  · simp
  · have hne : c ≠ d := fun he => h (by rw [he]; rfl)
    simp [hne]

theorem takeWhile_append_stop {p : Char → Bool} {t rest : List Char} (ht : ∀ c ∈ t, p c)
    (hr : ∀ c ∈ rest.head?, p c = false) :
    (t ++ rest).takeWhile p = t ∧ (t ++ rest).dropWhile p = rest := by
  rw [List.takeWhile_append_of_pos ht, List.dropWhile_append_of_pos ht]
  rcases rest with _ | ⟨d, ds⟩
  · simp
  · have hd : p d = false := hr d rfl
    simp [hd]

theorem reads_takeWhile1 {kind : ErrorKind} {p : Char → Bool} {t rest : List Char} (hne : t ≠ [])
    (ht : ∀ c ∈ t, p c) (hr : ∀ c ∈ rest.head?, p c = false) :
    Reads (takeWhile1 kind p : Parser ε (List Char)) t t rest := by
  obtain ⟨htake, hdrop⟩ := takeWhile_append_stop ht hr
  unfold Reads takeWhile1
  rw [htake, hdrop]
  rcases t with _ | ⟨c, cs⟩
  · exact absurd rfl hne
  · rfl

/-- Digits of a number below the bound, in front of something else. -/
theorem reads_unsigned {bound : ℕ} {t rest : List Char} (hne : t ≠ [])
    (ht : ∀ c ∈ t, Char.isDigit c) (hr : ∀ c ∈ rest.head?, Char.isDigit c = false)
    (hlt : decimal t < bound) : Reads (unsigned bound : Parser ε ℕ) t (decimal t) rest := by
  obtain ⟨htake, hdrop⟩ := takeWhile_append_stop ht hr
  unfold Reads unsigned
  rw [htake, hdrop]
  rcases t with _ | ⟨c, cs⟩
  · exact absurd rfl hne
  · exact if_pos hlt

/-- A printed integer in the range of its type, in front of something else. -/
theorem reads_signed {bound : ℕ} {n : ℤ} {rest : List Char} (h0 : -bound ≤ n) (h1 : n < bound)
    (hr : ∀ c ∈ rest.head?, Char.isDigit c = false) :
    Reads (signed bound : Parser ε ℤ) (intText n) n rest := by
  have hdigits : ∀ b, n.natAbs < b →
      unsigned (ε := ε) b (natText n.natAbs ++ rest) = .ok rest n.natAbs := by
    intro b hb
    have hread := reads_unsigned (ε := ε) (natText_ne_nil n.natAbs)
      (fun c hc => isDigit_natText hc) hr ((decimal_natText n.natAbs).trans_lt hb)
    rw [decimal_natText] at hread
    exact hread
  unfold Reads intText
  by_cases hn : n < 0
  · rw [if_pos hn, List.cons_append, signed, hdigits _ (by omega)]
    exact congrArg (Parsed.ok rest) (show -(n.natAbs : ℤ) = n by omega)
  · have hval : ((n.natAbs : ℕ) : ℤ) = n := by omega
    have hdigits := hdigits bound (by omega)
    obtain ⟨c, cs, hcs, hminus, hplus⟩ := natText_cons n.natAbs
    rw [if_neg hn]
    rw [hcs, List.cons_append] at hdigits ⊢
    unfold signed
    split
    · next heq => exact absurd (List.cons.inj heq).1 hminus
    · next heq => exact absurd (List.cons.inj heq).1 hplus
    · rw [hdigits]
      exact congrArg (Parsed.ok rest) hval

/-- An unsigned integer stops before the first character that is not a digit, or fails. -/
theorem unsigned_stops (bound : ℕ) (input : List Char) :
    Fails (unsigned bound : Parser ε ℕ) input ∨
      ∃ n, (unsigned bound : Parser ε ℕ) input = .ok (input.dropWhile Char.isDigit) n := by
  unfold Fails unsigned
  rcases input.takeWhile Char.isDigit with _ | ⟨c, cs⟩
  · exact Or.inl ⟨_, rfl⟩
  · dsimp only
    split_ifs
    · exact Or.inr ⟨_, rfl⟩
    · exact Or.inl ⟨_, rfl⟩

/-! ### Reading lists -/

/-- The texts of elements, each behind a separator. -/
def separated (sep : List Char) (text : β → List Char) (xs : List β) : List Char :=
  xs.flatMap fun x => sep ++ text x

/-- What follows an element: the end of the list, or a separator. -/
theorem separated_append {sep : List Char} {text : β → List Char} {xs : List β}
    (rest : List Char) : separated sep text xs ++ rest = rest ∨
      ∃ r', separated sep text xs ++ rest = sep ++ r' := by
  rcases xs with _ | ⟨y, ys⟩
  · exact Or.inl rfl
  · exact Or.inr ⟨text y ++ separated sep text ys ++ rest, by simp [separated]⟩

theorem reads_separatedLoop {sep : String} {item : Parser ε α} {text : β → List Char}
    {value : β → α} {rest : List Char} {xs : List β} (hsep : sep.toList ≠ [])
    (hend : Fails (tag sep : Parser ε Unit) rest)
    (hitem : ∀ x ∈ xs, ∀ r, (r = rest ∨ ∃ r', r = sep.toList ++ r') →
      Reads item (text x) (value x) r) {fuel : ℕ} {res : List α}
    (hfuel : (separated sep.toList text xs).length ≤ fuel) :
    Reads (separatedLoop (tag sep) item fuel res) (separated sep.toList text xs)
      (res ++ xs.map value) rest := by
  induction xs generalizing fuel res with
  | nil =>
    obtain ⟨err, hend⟩ := hend
    unfold Reads
    rw [List.map_nil, List.append_nil]
    rcases fuel with _ | fuel
    · rfl
    · show separatedLoop (tag sep) item (fuel + 1) res rest = _
      rw [separatedLoop, hend]
  | cons x xs ih =>
    have hcons : separated sep.toList text (x :: xs) =
        sep.toList ++ (text x ++ separated sep.toList text xs) := by
      simp [separated]
    have hpos : 0 < sep.toList.length := List.length_pos_iff.mpr hsep
    rw [hcons, List.length_append, List.length_append] at hfuel
    obtain ⟨fuel, rfl⟩ : ∃ k, fuel = k + 1 := ⟨fuel - 1, by omega⟩
    have hrest : separated sep.toList text xs ++ rest = rest ∨
        ∃ r', separated sep.toList text xs ++ rest = sep.toList ++ r' :=
      separated_append rest
    have htag := reads_tag (ε := ε) sep (text x ++ separated sep.toList text xs ++ rest)
    have hx := hitem x (by simp) _ hrest
    have htail : Reads (separatedLoop (tag sep) item fuel (res ++ [value x]))
        (separated sep.toList text xs) (res ++ [value x] ++ xs.map value) rest :=
      ih (fun y hy => hitem y (List.mem_cons_of_mem x hy)) (by omega)
    unfold Reads at htag hx htail ⊢
    rw [List.append_assoc] at htag
    rw [hcons, List.append_assoc, List.append_assoc, separatedLoop, htag]
    dsimp only
    rw [if_neg (by simp only [List.length_append]; omega), hx]
    dsimp only
    rw [htail]
    simp

/-- **A list of elements** is read when each element is, in front of a separator and of what comes
after the list. -/
theorem reads_separatedList1 {sep : String} {item : Parser ε α} {text : β → List Char}
    {value : β → α} {rest : List Char} {x : β} {xs : List β} (hsep : sep.toList ≠ [])
    (hend : Fails (tag sep : Parser ε Unit) rest)
    (hitem : ∀ y ∈ x :: xs, ∀ r, (r = rest ∨ ∃ r', r = sep.toList ++ r') →
      Reads item (text y) (value y) r) :
    Reads (separatedList1 (tag sep) item) (text x ++ separated sep.toList text xs)
      ((x :: xs).map value) rest := by
  have hrest : separated sep.toList text xs ++ rest = rest ∨
      ∃ r', separated sep.toList text xs ++ rest = sep.toList ++ r' :=
    separated_append rest
  have hx := hitem x (by simp) _ hrest
  have htail : Reads (separatedLoop (tag sep) item (separated sep.toList text xs ++ rest).length
      [value x]) (separated sep.toList text xs) ([value x] ++ xs.map value) rest :=
    reads_separatedLoop hsep hend (fun y hy => hitem y (List.mem_cons_of_mem x hy)) (by simp)
  unfold Reads at hx htail ⊢
  rw [List.append_assoc, separatedList1, hx]
  exact htail

end Parser
end Laqista.Lib
