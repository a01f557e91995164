import Laqista.Lib.Parser

/-! # What a parser accepts

The rules of `Parser` say what is read from a text. The rules here go the other way: a parser that
ends well, or panics, on an input has met a text of a certain form. `bind_ok_iff` and `panics_bind`
invert a sequence, `alt_ok_iff` and `panics_alt` a choice, and `separatedList1_ok_iff` and
`panics_separatedList1` a list, of which all elements but the last are in front of a separator
(`Chain`). -/

namespace Laqista.Lib.Parser

variable {ε α β : Type} {p q : Parser ε α} {f : α → Parser ε β} {input rest : List Char}

def Panics (p : Parser ε α) (input : List Char) : Prop := ∃ message, p input = .panic message

theorem not_panics_of_ok {a : α} (h : p input = .ok rest a) : ¬ Panics p input := by
  rintro ⟨message, hm⟩
  rw [h] at hm
  simp at hm

/-- A parser fails where it neither ends well nor panics. -/
theorem fails_iff : Fails p input ↔ (∀ rest a, p input ≠ .ok rest a) ∧ ¬ Panics p input := by
  unfold Fails Panics
  rcases p input with ⟨rest, a⟩ | err | message
  · simp
  · simp
  · simp

/-! ### Sequences and choices -/

theorem bind_ok_iff {b : β} : (p >>= f) input = .ok rest b ↔
    ∃ r a, p input = .ok r a ∧ f a r = .ok rest b := by
  show (p input).andThen _ = _ ↔ _
  rcases p input with ⟨r, a⟩ | err | message
  · simp [Parsed.andThen]
  · simp [Parsed.andThen]
  · simp [Parsed.andThen]

theorem panics_bind : Panics (p >>= f) input ↔
    Panics p input ∨ ∃ r a, p input = .ok r a ∧ Panics (f a) r := by
  have hbind : Panics (p >>= f) input ↔
      ∃ message, (p input).andThen (fun r a => f a r) = .panic message := Iff.rfl
  rw [hbind]
  unfold Panics
  rcases p input with ⟨r, a⟩ | err | message
  · simp [Parsed.andThen]
  · simp [Parsed.andThen]
  · simp [Parsed.andThen]

theorem not_panics_pure (a : α) : ¬ Panics (pure a : Parser ε α) input := by
  have hpure : (pure a : Parser ε α) input = .ok input a := rfl
  exact not_panics_of_ok hpure

theorem pure_ok_iff {a b : α} :
    (pure a : Parser ε α) input = .ok rest b ↔ input = rest ∧ a = b := by
  show Parsed.ok input a = .ok rest b ↔ _
  simp

theorem alt_ok_iff {a : α} : alt p q input = .ok rest a ↔
    p input = .ok rest a ∨ Fails p input ∧ q input = .ok rest a := by
  unfold alt Fails
  rcases p input with ⟨r, b⟩ | err | message
  · simp
  · simp
  · simp

theorem panics_alt : Panics (alt p q) input ↔ Panics p input ∨ Fails p input ∧ Panics q input := by
  unfold Panics alt Fails
  rcases p input with ⟨r, b⟩ | err | message
  · simp
  · simp
  · simp

/-! ### Texts and numbers -/

variable [ParseError ε]

theorem tag_ok_iff {t : String} {u : Unit} :
    (tag t : Parser ε Unit) input = .ok rest u ↔ input = t.toList ++ rest := by
  constructor
  · intro h
    unfold tag at h
    split_ifs at h with hprefix
    · obtain ⟨s, rfl⟩ := List.isPrefixOf_iff_prefix.mp hprefix
      obtain ⟨hrest, -⟩ := Parsed.ok.inj h
      rw [List.drop_left] at hrest
      rw [hrest]
  · rintro rfl
    exact reads_tag t rest

theorem not_panics_tag (t : String) : ¬ Panics (tag t : Parser ε Unit) input := by
  rintro ⟨message, h⟩
  unfold tag at h
  split_ifs at h

theorem takeWhile1_ok_iff {kind : ErrorKind} {p : Char → Bool} {t : List Char} :
    (takeWhile1 kind p : Parser ε (List Char)) input = .ok rest t ↔
      input = t ++ rest ∧ t ≠ [] ∧ (∀ c ∈ t, p c) ∧ ∀ c ∈ rest.head?, p c = false := by
  constructor
  · intro h
    unfold takeWhile1 at h
    rcases htake : input.takeWhile p with _ | ⟨c, cs⟩
    · simp [htake] at h
    · simp only [htake, Parsed.ok.injEq] at h
      obtain ⟨rfl, rfl⟩ := h
      refine ⟨?_, by simp, fun d hd => ?_, fun d hd => ?_⟩
      · rw [← htake, List.takeWhile_append_dropWhile]
      · rw [← htake] at hd
        exact List.mem_takeWhile_imp hd
      · have hstop := List.head?_dropWhile_not p input
        rw [Option.mem_def.mp hd] at hstop
        simpa using hstop
  · rintro ⟨rfl, hne, ht, hr⟩
    exact reads_takeWhile1 hne ht hr

theorem not_panics_takeWhile1 {kind : ErrorKind} {p : Char → Bool} :
    ¬ Panics (takeWhile1 kind p : Parser ε (List Char)) input := by
  rintro ⟨message, h⟩
  unfold takeWhile1 at h
  rcases htake : input.takeWhile p with _ | ⟨c, cs⟩
  · simp [htake] at h
  · simp [htake] at h

/-- The digits of a number below the bound, with nothing that goes on with it. -/
def NumberText (bound : ℕ) (t rest : List Char) : Prop :=
  t ≠ [] ∧ (∀ c ∈ t, Char.isDigit c) ∧ decimal t < bound ∧ ∀ c ∈ rest.head?, Char.isDigit c = false

theorem unsigned_ok_iff {bound n : ℕ} : (unsigned bound : Parser ε ℕ) input = .ok rest n ↔
    ∃ t, input = t ++ rest ∧ NumberText bound t rest ∧ n = decimal t := by
  constructor
  · intro h
    have hdigits : (digit1 : Parser ε (List Char)) input =
        .ok (input.dropWhile Char.isDigit) (input.takeWhile Char.isDigit) := by
      unfold unsigned at h
      unfold digit1 takeWhile1
      rcases htake : input.takeWhile Char.isDigit with _ | ⟨c, cs⟩
      · simp [htake] at h
      · rfl
    obtain ⟨hinput, hne, ht, hr⟩ := takeWhile1_ok_iff.mp hdigits
    unfold unsigned at h
    rcases htake : input.takeWhile Char.isDigit with _ | ⟨c, cs⟩
    · exact absurd htake hne
    · simp only [htake] at h hinput ht
      split_ifs at h with hlt
      obtain ⟨rfl, rfl⟩ := Parsed.ok.inj h
      exact ⟨c :: cs, hinput, ⟨by simp, ht, hlt, hr⟩, rfl⟩
  · rintro ⟨t, rfl, ⟨hne, ht, hlt, hr⟩, rfl⟩
    exact reads_unsigned hne ht hr hlt

theorem not_panics_unsigned {bound : ℕ} : ¬ Panics (unsigned bound : Parser ε ℕ) input := by
  rintro ⟨message, h⟩
  unfold unsigned at h
  rcases htake : input.takeWhile Char.isDigit with _ | ⟨c, cs⟩
  · simp [htake] at h
  · simp only [htake] at h
    split_ifs at h

/-- The same end of a parser with another value, or another error. -/
def converted (f : α → β) (g : ε → ε) : Parsed ε α → Parsed ε β
  | .ok rest a => .ok rest (f a)
  | .error err => .error (g err)
  | .panic message => .panic message

omit [ParseError ε] in
theorem converted_ok_iff {f : α → β} {g : ε → ε} {x : Parsed ε α} {b : β} :
    converted f g x = .ok rest b ↔ ∃ a, x = .ok rest a ∧ b = f a := by
  rcases x with ⟨r, a⟩ | err | message
  · simp only [converted, Parsed.ok.injEq]
    constructor
    · rintro ⟨rfl, rfl⟩
      exact ⟨a, ⟨rfl, rfl⟩, rfl⟩
    · rintro ⟨_, ⟨rfl, rfl⟩, rfl⟩
      exact ⟨rfl, rfl⟩
  · simp [converted]
  · simp [converted]

omit [ParseError ε] in
theorem converted_eq_panic {f : α → β} {g : ε → ε} {x : Parsed ε α} {message : String} :
    converted f g x = .panic message ↔ x = .panic message := by
  rcases x with ⟨r, a⟩ | err | message
  · simp [converted]
  · simp [converted]
  · simp [converted]

theorem signed_minus_eq (bound : ℕ) (s : List Char) : (signed bound : Parser ε ℤ) ('-' :: s) =
    converted (fun k : ℕ => -(k : ℤ)) (fun _ => fromErrorKind ('-' :: s) .digit)
      (unsigned (bound + 1) s) := by
  simp only [signed]
  rcases (unsigned (bound + 1) : Parser ε ℕ) s with ⟨r, k⟩ | err | message
  · rfl
  · rfl
  · rfl

theorem signed_plus_eq (bound : ℕ) (s : List Char) : (signed bound : Parser ε ℤ) ('+' :: s) =
    converted (fun k : ℕ => (k : ℤ)) (fun _ => fromErrorKind ('+' :: s) .digit)
      (unsigned bound s) := by
  simp only [signed]
  rcases (unsigned bound : Parser ε ℕ) s with ⟨r, k⟩ | err | message
  · rfl
  · rfl
  · rfl

theorem signed_plain_eq (bound : ℕ) (hminus : ∀ s, input ≠ '-' :: s)
    (hplus : ∀ s, input ≠ '+' :: s) : (signed bound : Parser ε ℤ) input =
      converted (fun k : ℕ => (k : ℤ)) id (unsigned bound input) := by
  unfold signed
  split
  · next s => exact absurd rfl (hminus s)
  · next s => exact absurd rfl (hplus s)
  · rcases (unsigned bound : Parser ε ℕ) input with ⟨r, k⟩ | err | message
    · rfl
    · rfl
    · rfl

/-- The text of a number does not start with a sign. -/
theorem NumberText.ne_cons {bound : ℕ} {t rest s : List Char} {c : Char}
    (h : NumberText bound t rest) (hc : Char.isDigit c = false) : t ++ rest ≠ c :: s := by
  obtain ⟨hne, hdigits, -⟩ := h
  intro heq
  rcases t with _ | ⟨d, ds⟩
  · exact hne rfl
  · obtain rfl := (List.cons.inj heq).1
    rw [hdigits d (List.mem_cons_self ..)] at hc
    exact absurd hc (by simp)

/-- A number has a minus, a plus, or no sign. -/
theorem sign_cases (input : List Char) : (∃ s, input = '-' :: s) ∨ (∃ s, input = '+' :: s) ∨
    ((∀ s, input ≠ '-' :: s) ∧ ∀ s, input ≠ '+' :: s) := by
  by_cases hminus : ∃ s, input = '-' :: s
  · exact .inl hminus
  · by_cases hplus : ∃ s, input = '+' :: s
    · exact .inr (.inl hplus)
    · exact .inr (.inr ⟨fun s hs => hminus ⟨s, hs⟩, fun s hs => hplus ⟨s, hs⟩⟩)

/-- An optional sign and the digits of a number, with `-bound ≤ n < bound`. -/
theorem signed_ok_iff {bound : ℕ} {n : ℤ} : (signed bound : Parser ε ℤ) input = .ok rest n ↔
    ∃ sign t, input = sign ++ (t ++ rest) ∧
      ((sign = ['-'] ∧ NumberText (bound + 1) t rest ∧ n = -(decimal t : ℤ)) ∨
        ((sign = [] ∨ sign = ['+']) ∧ NumberText bound t rest ∧ n = decimal t)) := by
  constructor
  · intro h
    rcases sign_cases input with ⟨s, rfl⟩ | ⟨s, rfl⟩ | ⟨hminus, hplus⟩
    · rw [signed_minus_eq] at h
      obtain ⟨k, hk, rfl⟩ := converted_ok_iff.mp h
      obtain ⟨t, rfl, ht, rfl⟩ := unsigned_ok_iff.mp hk
      exact ⟨['-'], t, rfl, .inl ⟨rfl, ht, rfl⟩⟩
    · rw [signed_plus_eq] at h
      obtain ⟨k, hk, rfl⟩ := converted_ok_iff.mp h
      obtain ⟨t, rfl, ht, rfl⟩ := unsigned_ok_iff.mp hk
      exact ⟨['+'], t, rfl, .inr ⟨.inr rfl, ht, rfl⟩⟩
    · rw [signed_plain_eq bound hminus hplus] at h
      obtain ⟨k, hk, rfl⟩ := converted_ok_iff.mp h
      obtain ⟨t, rfl, ht, rfl⟩ := unsigned_ok_iff.mp hk
      exact ⟨[], t, rfl, .inr ⟨.inl rfl, ht, rfl⟩⟩
  · rintro ⟨sign, t, rfl, ⟨rfl, ht, rfl⟩ | ⟨rfl | rfl, ht, rfl⟩⟩
    · have hk := (unsigned_ok_iff (ε := ε)).mpr ⟨t, rfl, ht, rfl⟩
      show (signed bound : Parser ε ℤ) ('-' :: (t ++ rest)) = _
      rw [signed_minus_eq]
      exact converted_ok_iff.mpr ⟨_, hk, rfl⟩
    · have hk := (unsigned_ok_iff (ε := ε)).mpr ⟨t, rfl, ht, rfl⟩
      have hminus : ∀ s, t ++ rest ≠ '-' :: s := fun s => ht.ne_cons (by decide)
      have hplus : ∀ s, t ++ rest ≠ '+' :: s := fun s => ht.ne_cons (by decide)
      show (signed bound : Parser ε ℤ) (t ++ rest) = _
      rw [signed_plain_eq bound hminus hplus]
      exact converted_ok_iff.mpr ⟨_, hk, rfl⟩
    · have hk := (unsigned_ok_iff (ε := ε)).mpr ⟨t, rfl, ht, rfl⟩
      show (signed bound : Parser ε ℤ) ('+' :: (t ++ rest)) = _
      rw [signed_plus_eq]
      exact converted_ok_iff.mpr ⟨_, hk, rfl⟩

theorem not_panics_signed {bound : ℕ} : ¬ Panics (signed bound : Parser ε ℤ) input := by
  rintro ⟨message, h⟩
  rcases sign_cases input with ⟨s, rfl⟩ | ⟨s, rfl⟩ | ⟨hminus, hplus⟩
  · rw [signed_minus_eq, converted_eq_panic] at h
    exact not_panics_unsigned ⟨message, h⟩
  · rw [signed_plus_eq, converted_eq_panic] at h
    exact not_panics_unsigned ⟨message, h⟩
  · rw [signed_plain_eq bound hminus hplus, converted_eq_panic] at h
    exact not_panics_unsigned ⟨message, h⟩

/-! ### Lists -/

/-- Elements that are read one after the other, each in front of a separator. -/
inductive Chain (item : Parser ε α) (sep : List Char) : List Char → List α → List Char → Prop
  | nil (input : List Char) : Chain item sep input [] input
  | cons {input r rest : List Char} {a : α} {as : List α} (hitem : item input = .ok (sep ++ r) a)
      (hrest : Chain item sep r as rest) : Chain item sep input (a :: as) rest

/-- No further element is read. -/
def Ended (item : Parser ε α) (sep rest : List Char) : Prop := ∀ r, rest = sep ++ r → Fails item r

/-- What is left is no longer than the input. -/
def Consumes (item : Parser ε α) : Prop :=
  ∀ input rest a, item input = .ok rest a → rest.length ≤ input.length

variable {sep : String} {item : Parser ε α} {s t : List Char} {a b : α} {as bs res : List α}

omit [ParseError ε] in
/-- An element is read in front of a separator: the chain goes on after it. -/
theorem chain_iff_of_ok {r : List Char} {sep : List Char} (h : item s = .ok r a) :
    Chain item sep s as t ↔ (as = [] ∧ s = t) ∨
      ∃ s' as', r = sep ++ s' ∧ as = a :: as' ∧ Chain item sep s' as' t := by
  constructor
  · rintro (_ | ⟨hitem, hrest⟩)
    · exact .inl ⟨rfl, rfl⟩
    · rw [h] at hitem
      obtain ⟨rfl, rfl⟩ := Parsed.ok.inj hitem
      exact .inr ⟨_, _, rfl, rfl, hrest⟩
  · rintro (⟨rfl, rfl⟩ | ⟨s', as', rfl, rfl, hrest⟩)
    · exact .nil _
    · exact .cons h hrest

omit [ParseError ε] in
/-- Nothing goes on where no element is read. -/
theorem chain_of_not_ok {sep : List Char} (h : ∀ r a, item s ≠ .ok r a)
    (hc : Chain item sep s as t) : as = [] ∧ s = t := by
  rcases hc with _ | ⟨hitem, -⟩
  · exact ⟨rfl, rfl⟩
  · exact absurd hitem (h _ _)

omit [ParseError ε] in
theorem not_ok_behind {sep : List Char} {rest : List Char} (h : ∀ r a, item s ≠ .ok r a)
    (hc : Chain item sep s as t) : item t ≠ .ok rest b := by
  obtain ⟨-, rfl⟩ := chain_of_not_ok h hc
  exact h rest b

theorem length_ne_append {sep : List Char} (hsep : sep ≠ []) (s : List Char) :
    s.length ≠ (sep ++ s).length := by
  have hpos := List.length_pos_iff.mpr hsep
  rw [List.length_append]
  omega

theorem nil_ne_append {sep : List Char} (hsep : sep ≠ []) (s : List Char) : [] ≠ sep ++ s :=
  fun h => hsep (List.append_eq_nil_iff.mp h.symm).1

/-- A turn of the loop in which an element is read. -/
theorem separatedLoop_of_ok {fuel : ℕ} {r : List Char} (hsep : sep.toList ≠ [])
    (hi : item s = .ok r a) : separatedLoop (tag sep) item (fuel + 1) res (sep.toList ++ s) =
      separatedLoop (tag sep) item fuel (res ++ [a]) r := by
  have htag : (tag sep : Parser ε Unit) (sep.toList ++ s) = .ok s () := reads_tag sep s
  simp only [separatedLoop, htag, if_neg (length_ne_append hsep s), hi]

/-- The last turn of the loop: no element follows the separator. -/
theorem separatedLoop_of_error {fuel : ℕ} {err : ε} (hsep : sep.toList ≠ [])
    (hi : item s = .error err) : separatedLoop (tag sep) item (fuel + 1) res (sep.toList ++ s) =
      .ok (sep.toList ++ s) res := by
  have htag : (tag sep : Parser ε Unit) (sep.toList ++ s) = .ok s () := reads_tag sep s
  simp only [separatedLoop, htag, if_neg (length_ne_append hsep s), hi]

theorem separatedLoop_of_panic {fuel : ℕ} {message : String} (hsep : sep.toList ≠ [])
    (hi : item s = .panic message) :
    separatedLoop (tag sep) item (fuel + 1) res (sep.toList ++ s) = .panic message := by
  have htag : (tag sep : Parser ε Unit) (sep.toList ++ s) = .ok s () := reads_tag sep s
  simp only [separatedLoop, htag, if_neg (length_ne_append hsep s), hi]

/-- The loop ends in front of anything but a separator. -/
theorem separatedLoop_end {fuel : ℕ} (h : ∀ s, input ≠ sep.toList ++ s) :
    separatedLoop (tag sep) item fuel res input = .ok input res := by
  have htag : Fails (tag sep : Parser ε Unit) input :=
    fails_iff.mpr ⟨fun r u hr => h r (tag_ok_iff.mp hr), not_panics_tag sep⟩
  obtain ⟨err, htag⟩ := htag
  rcases fuel with _ | fuel
  · rfl
  · rw [separatedLoop, htag]

theorem separatedLoop_end_ok_iff {fuel : ℕ} (hne : ∀ s, input ≠ sep.toList ++ s) :
    separatedLoop (tag sep) item fuel res input = .ok rest as ↔
      (rest = input ∧ as = res ∧ Ended item sep.toList input) ∨
      ∃ s bs t b, input = sep.toList ++ s ∧ Chain item sep.toList s bs t ∧
        item t = .ok rest b ∧ Ended item sep.toList rest ∧ as = res ++ (bs ++ [b]) := by
  rw [separatedLoop_end hne]
  constructor
  · intro h
    obtain ⟨rfl, rfl⟩ := Parsed.ok.inj h
    exact .inl ⟨rfl, rfl, fun r hr => absurd hr (hne r)⟩
  · rintro (⟨rfl, rfl, -⟩ | ⟨s, bs, t, b, hs, -⟩)
    · rfl
    · exact absurd hs (hne s)

/-- **What the loop reads**: nothing more, or a chain of elements behind a separator and a last
element. -/
theorem separatedLoop_ok_iff (hsep : sep.toList ≠ []) (hitem : Consumes item) {fuel : ℕ}
    (hfuel : input.length ≤ fuel) :
    separatedLoop (tag sep) item fuel res input = .ok rest as ↔
      (rest = input ∧ as = res ∧ Ended item sep.toList input) ∨
      ∃ s bs t b, input = sep.toList ++ s ∧ Chain item sep.toList s bs t ∧
        item t = .ok rest b ∧ Ended item sep.toList rest ∧ as = res ++ (bs ++ [b]) := by
  induction fuel generalizing input res with
  | zero =>
    obtain rfl := List.length_eq_zero_iff.mp (Nat.le_zero.mp hfuel)
    exact separatedLoop_end_ok_iff (nil_ne_append hsep)
  | succ fuel ih =>
    by_cases hs : ∃ s, input = sep.toList ++ s
    · obtain ⟨s, rfl⟩ := hs
      have hpos := List.length_pos_iff.mpr hsep
      rw [List.length_append] at hfuel
      rcases hi : item s with ⟨r, a⟩ | err | message
      · have hr := hitem _ _ _ hi
        rw [separatedLoop_of_ok hsep hi, ih (by omega)]
        constructor
        · rintro (⟨rfl, rfl, hend⟩ | ⟨s', bs, t, b, rfl, hchain, hb, hend, rfl⟩)
          · exact .inr ⟨s, [], s, a, rfl, .nil s, hi, hend, rfl⟩
          · exact .inr ⟨s, a :: bs, t, b, rfl, .cons hi hchain, hb, hend, by simp⟩
        · rintro (⟨-, -, hend⟩ | ⟨s', bs, t, b, heq, hchain, hb, hend, rfl⟩)
          · obtain ⟨err, herr⟩ := hend s rfl
            rw [hi] at herr
            simp at herr
          · obtain rfl := List.append_cancel_left heq
            rcases (chain_iff_of_ok hi).mp hchain with ⟨rfl, rfl⟩ | ⟨s', bs', rfl, rfl, hrest⟩
            · rw [hi] at hb
              obtain ⟨rfl, rfl⟩ := Parsed.ok.inj hb
              exact .inl ⟨rfl, by simp, hend⟩
            · exact .inr ⟨s', bs', t, b, rfl, hrest, hb, hend, by simp⟩
      · have hnot : ∀ r a, item s ≠ .ok r a := by simp [hi]
        rw [separatedLoop_of_error hsep hi]
        constructor
        · intro h
          obtain ⟨rfl, rfl⟩ := Parsed.ok.inj h
          refine .inl ⟨rfl, rfl, fun r hr => ?_⟩
          rw [← List.append_cancel_left hr]
          exact ⟨err, hi⟩
        · rintro (⟨rfl, rfl, -⟩ | ⟨s', bs, t, b, heq, hchain, hb, -⟩)
          · rfl
          · obtain rfl := List.append_cancel_left heq
            exact absurd hb (not_ok_behind hnot hchain)
      · have hnot : ∀ r a, item s ≠ .ok r a := by simp [hi]
        rw [separatedLoop_of_panic hsep hi]
        constructor
        · intro h
          simp at h
        · rintro (⟨-, -, hend⟩ | ⟨s', bs, t, b, heq, hchain, hb, -⟩)
          · obtain ⟨err, herr⟩ := hend s rfl
            rw [hi] at herr
            simp at herr
          · obtain rfl := List.append_cancel_left heq
            exact absurd hb (not_ok_behind hnot hchain)
    · exact separatedLoop_end_ok_iff fun s h => hs ⟨s, h⟩

theorem panics_separatedLoop (hsep : sep.toList ≠ []) (hitem : Consumes item) {fuel : ℕ}
    (hfuel : input.length ≤ fuel) :
    Panics (separatedLoop (tag sep) item fuel res) input ↔
      ∃ s bs t, input = sep.toList ++ s ∧ Chain item sep.toList s bs t ∧ Panics item t := by
  induction fuel generalizing input res with
  | zero =>
    obtain rfl := List.length_eq_zero_iff.mp (Nat.le_zero.mp hfuel)
    have hend : ¬ Panics (separatedLoop (tag sep) item 0 res) [] :=
      not_panics_of_ok (separatedLoop_end (nil_ne_append hsep))
    refine iff_of_false hend ?_
    rintro ⟨s, bs, t, hs, -⟩
    exact nil_ne_append hsep s hs
  | succ fuel ih =>
    by_cases hs : ∃ s, input = sep.toList ++ s
    · obtain ⟨s, rfl⟩ := hs
      have hpos := List.length_pos_iff.mpr hsep
      rw [List.length_append] at hfuel
      rcases hi : item s with ⟨r, a⟩ | err | message
      · have hr := hitem _ _ _ hi
        have hloop : Panics (separatedLoop (tag sep) item (fuel + 1) res) (sep.toList ++ s) ↔
            Panics (separatedLoop (tag sep) item fuel (res ++ [a])) r := by
          unfold Panics
          rw [separatedLoop_of_ok hsep hi]
        rw [hloop, ih (by omega)]
        constructor
        · rintro ⟨s', bs, t, rfl, hchain, hp⟩
          exact ⟨s, a :: bs, t, rfl, .cons hi hchain, hp⟩
        · rintro ⟨s', bs, t, heq, hchain, hp⟩
          obtain rfl := List.append_cancel_left heq
          rcases (chain_iff_of_ok hi).mp hchain with ⟨rfl, rfl⟩ | ⟨s', bs', rfl, rfl, hrest⟩
          · exact absurd hp (not_panics_of_ok hi)
          · exact ⟨s', bs', t, rfl, hrest, hp⟩
      · constructor
        · intro h
          exact absurd h (not_panics_of_ok (separatedLoop_of_error hsep hi))
        · rintro ⟨s', bs, t, heq, hchain, message, hp⟩
          obtain rfl := List.append_cancel_left heq
          obtain ⟨-, rfl⟩ := chain_of_not_ok (by simp [hi]) hchain
          rw [hi] at hp
          simp at hp
      · exact ⟨fun _ => ⟨s, [], s, rfl, .nil s, message, hi⟩,
          fun _ => ⟨message, separatedLoop_of_panic hsep hi⟩⟩
    · have hend : ¬ Panics (separatedLoop (tag sep) item (fuel + 1) res) input :=
        not_panics_of_ok (separatedLoop_end fun s h => hs ⟨s, h⟩)
      refine iff_of_false hend ?_
      rintro ⟨s, bs, t, heq, -⟩
      exact hs ⟨s, heq⟩

/-- **A list is read** up to its last element, behind which no further one is read. -/
theorem separatedList1_ok_iff (hsep : sep.toList ≠ []) (hitem : Consumes item) :
    separatedList1 (tag sep) item input = .ok rest as ↔
      ∃ bs t b, Chain item sep.toList input bs t ∧ item t = .ok rest b ∧
        Ended item sep.toList rest ∧ as = bs ++ [b] := by
  unfold separatedList1
  rcases hi : item input with ⟨r, a⟩ | err | message
  · refine (separatedLoop_ok_iff hsep hitem le_rfl).trans ?_
    constructor
    · rintro (⟨rfl, rfl, hend⟩ | ⟨s, bs, t, b, rfl, hchain, hb, hend, rfl⟩)
      · exact ⟨[], input, a, .nil _, hi, hend, rfl⟩
      · exact ⟨a :: bs, t, b, .cons hi hchain, hb, hend, by simp⟩
    · rintro ⟨bs, t, b, hchain, hb, hend, rfl⟩
      rcases (chain_iff_of_ok hi).mp hchain with ⟨rfl, rfl⟩ | ⟨s', bs', rfl, rfl, hrest⟩
      · rw [hi] at hb
        obtain ⟨rfl, rfl⟩ := Parsed.ok.inj hb
        exact .inl ⟨rfl, rfl, hend⟩
      · exact .inr ⟨s', bs', t, b, rfl, hrest, hb, hend, by simp⟩
  · refine ⟨fun h => by simp [Parsed.andThen] at h, ?_⟩
    rintro ⟨bs, t, b, hchain, hb, -⟩
    exact absurd hb (not_ok_behind (by simp [hi]) hchain)
  · refine ⟨fun h => by simp [Parsed.andThen] at h, ?_⟩
    rintro ⟨bs, t, b, hchain, hb, -⟩
    exact absurd hb (not_ok_behind (by simp [hi]) hchain)

/-- **A list panics exactly when an element does**, behind others in front of separators. -/
theorem panics_separatedList1 (hsep : sep.toList ≠ []) (hitem : Consumes item) :
    Panics (separatedList1 (tag sep) item) input ↔
      ∃ bs t, Chain item sep.toList input bs t ∧ Panics item t := by
  rcases hi : item input with ⟨r, a⟩ | err | message
  · have hlist : Panics (separatedList1 (tag sep) item) input ↔
        Panics (separatedLoop (tag sep) item r.length [a]) r := by
      unfold Panics separatedList1
      rw [hi]
      rfl
    rw [hlist, panics_separatedLoop hsep hitem le_rfl]
    constructor
    · rintro ⟨s, bs, t, rfl, hchain, hp⟩
      exact ⟨a :: bs, t, .cons hi hchain, hp⟩
    · rintro ⟨bs, t, hchain, hp⟩
      rcases (chain_iff_of_ok hi).mp hchain with ⟨rfl, rfl⟩ | ⟨s', bs', rfl, rfl, hrest⟩
      · exact absurd hp (not_panics_of_ok hi)
      · exact ⟨s', bs', t, rfl, hrest, hp⟩
  · constructor
    · rintro ⟨message, h⟩
      unfold separatedList1 at h
      rw [hi] at h
      simp [Parsed.andThen] at h
    · rintro ⟨bs, t, hchain, message, hp⟩
      obtain ⟨-, rfl⟩ := chain_of_not_ok (by simp [hi]) hchain
      rw [hi] at hp
      simp at hp
  · refine ⟨fun _ => ⟨[], input, .nil _, message, hi⟩, fun _ => ⟨message, ?_⟩⟩
    unfold separatedList1
    rw [hi]
    rfl

end Laqista.Lib.Parser
