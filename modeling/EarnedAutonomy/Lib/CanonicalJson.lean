import Mathlib.Data.List.Basic

/-!
# Canonical JSON text

A signature over a structured value is a signature over one text of it.  This
file fixes that text and proves that it determines the value.

* `Json` is a JSON tree.  Numbers are kept as their lexemes and the members of
  an object as a list, so the tree says exactly what will be written.
* `render` writes a tree with the separators `,` and `:` and no white space.
  Strings keep every character above the control range and escape the rest.
* `render_append_inj` is the result: no text begins with two different trees,
  as long as what follows a number is not itself part of a number.
-/

namespace CanonicalJson

/-- The characters a number is written with. -/
def isNumberChar (c : Char) : Bool :=
  c.isDigit || c = '-' || c = '+' || c = '.' || c = 'e'

/-- The text of a number. -/
structure Lexeme where
  chars : List Char
  nonempty : chars ≠ []
  numeric : ∀ c ∈ chars, isNumberChar c = true

/-- A JSON tree, with the members of an object in the order they are written. -/
inductive Json where
  | null
  | bool (b : Bool)
  | num (n : Lexeme)
  | str (s : String)
  | arr (items : List Json)
  | obj (members : List (String × Json))

/-! ## Writing -/

/-- A lower-case hexadecimal digit. -/
def hexDigit (n : Nat) : Char :=
  if n < 10 then Char.ofNat (48 + n) else Char.ofNat (87 + n)

/-- One character inside a string.  Only the quote, the backslash and the
control characters are escaped. -/
def escapeChar (c : Char) : List Char :=
  if c = '"' then ['\\', '"']
  else if c = '\\' then ['\\', '\\']
  else if c = '\n' then ['\\', 'n']
  else if c = '\r' then ['\\', 'r']
  else if c = '\t' then ['\\', 't']
  else if c = '\x08' then ['\\', 'b']
  else if c = '\x0c' then ['\\', 'f']
  else if c.toNat < 32 then
    ['\\', 'u', '0', '0', hexDigit (c.toNat / 16), hexDigit (c.toNat % 16)]
  else [c]

/-- The body of a string and its closing quote. -/
def escapeAll : List Char → List Char
  | [] => ['"']
  | c :: cs => escapeChar c ++ escapeAll cs

/-- A quoted string. -/
def quote (s : String) : List Char := '"' :: escapeAll s.toList

mutual

/-- The text of a tree. -/
def render : Json → List Char
  | .null => ['n', 'u', 'l', 'l']
  | .bool true => ['t', 'r', 'u', 'e']
  | .bool false => ['f', 'a', 'l', 's', 'e']
  | .num n => n.chars
  | .str s => quote s
  | .arr [] => ['[', ']']
  | .arr (j :: items) => '[' :: (render j ++ renderItems items)
  | .obj [] => ['{', '}']
  | .obj ((k, j) :: members) => '{' :: (quote k ++ ':' :: (render j ++ renderMembers members))

/-- The later items of an array and its closing bracket. -/
def renderItems : List Json → List Char
  | [] => [']']
  | j :: items => ',' :: (render j ++ renderItems items)

/-- The later members of an object and its closing brace. -/
def renderMembers : List (String × Json) → List Char
  | [] => ['}']
  | (k, j) :: members => ',' :: (quote k ++ ':' :: (render j ++ renderMembers members))

end

/-- An object opens with a brace. -/
theorem brace_mem_render_obj (members : List (String × Json)) :
    '{' ∈ render (.obj members) := by
  rcases members with _ | ⟨⟨k, j⟩, members⟩
  · simp [render]
  · simp [render]

/-! ## Reading one character of a string back -/

/-- The value of a hexadecimal digit. -/
def hexValue (c : Char) : Nat :=
  if c.toNat < 58 then c.toNat - 48 else c.toNat - 87

/-- The first character of a string body, and what follows it. -/
def unescape : List Char → Option (Char × List Char)
  | [] => none
  | c :: r =>
      if c = '\\' then
        match r with
        | [] => none
        | e :: r' =>
            if e = 'u' then
              match r' with
              | _ :: _ :: hi :: lo :: r'' =>
                  some (Char.ofNat (hexValue hi * 16 + hexValue lo), r'')
              | _ => none
            else if e = 'n' then some ('\n', r')
            else if e = 'r' then some ('\r', r')
            else if e = 't' then some ('\t', r')
            else if e = 'b' then some ('\x08', r')
            else if e = 'f' then some ('\x0c', r')
            else some (e, r')
      else some (c, r)

private theorem hexValue_hexDigit :
    ∀ n < 32, hexValue (hexDigit (n / 16)) * 16 + hexValue (hexDigit (n % 16)) = n := by
  decide

theorem unescape_escapeChar (c : Char) (r : List Char) :
    unescape (escapeChar c ++ r) = some (c, r) := by
  unfold escapeChar
  iterate 7
    split
    · rename_i h
      subst h
      rfl
  split
  · rename_i h
    simp [unescape, hexValue_hexDigit _ h]
  · rename_i h _ _ _ _ _ _
    simp [unescape, h]

/-- An escaped character never begins with the closing quote. -/
theorem escapeChar_ne_quote (c : Char) (r r' : List Char) :
    escapeChar c ++ r ≠ '"' :: r' := by
  unfold escapeChar
  intro h
  repeat' split at h
  all_goals simp_all

theorem escapeChar_append_inj {c d : Char} {r r' : List Char}
    (h : escapeChar c ++ r = escapeChar d ++ r') : c = d ∧ r = r' := by
  have hu := congrArg unescape h
  rw [unescape_escapeChar, unescape_escapeChar] at hu
  simpa using hu

theorem escapeAll_append_inj {cs ds r r' : List Char}
    (h : escapeAll cs ++ r = escapeAll ds ++ r') : cs = ds ∧ r = r' := by
  induction cs generalizing ds with
  | nil =>
    cases ds with
    | nil => exact ⟨rfl, by simpa [escapeAll] using h⟩
    | cons d ds =>
      simp only [escapeAll, List.append_assoc] at h
      exact absurd h.symm (escapeChar_ne_quote d _ _)
  | cons c cs ih =>
    cases ds with
    | nil =>
      simp only [escapeAll, List.append_assoc] at h
      exact absurd h (escapeChar_ne_quote c _ _)
    | cons d ds =>
      simp only [escapeAll, List.append_assoc] at h
      obtain ⟨rfl, htail⟩ := escapeChar_append_inj h
      obtain ⟨rfl, hr⟩ := ih htail
      exact ⟨rfl, hr⟩

/-- A quoted string can be read off the front of a text. -/
theorem quote_append_inj {s t : String} {r r' : List Char}
    (h : quote s ++ r = quote t ++ r') : s = t ∧ r = r' := by
  simp only [quote, List.cons_append, List.cons.injEq, true_and] at h
  obtain ⟨hst, hr⟩ := escapeAll_append_inj h
  exact ⟨String.toList_inj.mp hst, hr⟩

/-! ## Numbers end where their characters end -/

/-- The text `r` does not continue a number. -/
def EndsNumber (r : List Char) : Prop := ∀ c ∈ r.head?, isNumberChar c = false

theorem endsNumber_nil : EndsNumber [] := by simp [EndsNumber]

theorem endsNumber_cons {c : Char} {r : List Char} (h : isNumberChar c = false) :
    EndsNumber (c :: r) := by simpa [EndsNumber] using h

private theorem takeWhile_lexeme (n : Lexeme) {r : List Char} (hr : EndsNumber r) :
    (n.chars ++ r).takeWhile isNumberChar = n.chars := by
  rw [List.takeWhile_append_of_pos n.numeric]
  cases r with
  | nil => simp
  | cons c r =>
    have hc : isNumberChar c = false := hr c (by simp)
    simp [hc]

theorem Lexeme.append_inj {m n : Lexeme} {r r' : List Char} (hr : EndsNumber r)
    (hr' : EndsNumber r') (h : m.chars ++ r = n.chars ++ r') : m = n ∧ r = r' := by
  have hchars : m.chars = n.chars := by
    have ht := congrArg (List.takeWhile isNumberChar) h
    rwa [takeWhile_lexeme m hr, takeWhile_lexeme n hr'] at ht
  refine ⟨?_, ?_⟩
  · cases m; cases n; cases hchars; rfl
  · rw [hchars] at h
    exact List.append_cancel_left h

/-- A number begins with one of its characters. -/
theorem Lexeme.exists_cons (n : Lexeme) :
    ∃ c cs, n.chars = c :: cs ∧ isNumberChar c = true := by
  obtain ⟨c, cs, h⟩ := List.exists_cons_of_ne_nil n.nonempty
  exact ⟨c, cs, h, n.numeric c (by rw [h]; simp)⟩

/-! ## The text determines the tree -/

/-- The constructor of a tree, as a number. -/
def Json.kind : Json → Nat
  | .null => 0
  | .bool _ => 1
  | .num _ => 2
  | .str _ => 3
  | .arr _ => 4
  | .obj _ => 5

/-- The constructor of a tree that begins with a character. -/
def kindOf (c : Char) : Nat :=
  if c = 'n' then 0
  else if c = 't' ∨ c = 'f' then 1
  else if c = '"' then 3
  else if c = '[' then 4
  else if c = '{' then 5
  else 2

private theorem kindOf_number {c : Char} (h : isNumberChar c = true) : kindOf c = 2 := by
  unfold kindOf
  repeat' split
  all_goals first
    | rfl
    | (rename_i hc; rcases hc with rfl | rfl <;> exact absurd h (by decide))

/-- The first character of a text tells the constructor of its tree. -/
theorem kindOf_head (j : Json) (r : List Char) :
    (render j ++ r).head?.map kindOf = some j.kind := by
  cases j with
  | null => rfl
  | bool b => cases b <;> rfl
  | num n =>
    obtain ⟨c, cs, h, hc⟩ := n.exists_cons
    simp [render, h, kindOf_number hc, Json.kind]
  | str s => rfl
  | arr items => cases items <;> rfl
  | obj members =>
    rcases members with _ | ⟨⟨k, j⟩, members⟩ <;> rfl

theorem endsNumber_renderItems (items : List Json) (r : List Char) :
    EndsNumber (renderItems items ++ r) := by
  cases items <;> exact endsNumber_cons (by decide)

theorem endsNumber_renderMembers (members : List (String × Json)) (r : List Char) :
    EndsNumber (renderMembers members ++ r) := by
  rcases members with _ | ⟨⟨k, j⟩, members⟩ <;> exact endsNumber_cons (by decide)

/-- No tree begins with a closing bracket. -/
private theorem render_ne_close (j : Json) (r r' : List Char) {c : Char}
    (hc : kindOf c = 2) (hn : isNumberChar c = false) : render j ++ r ≠ c :: r' := by
  intro h
  have hk := kindOf_head j r
  rw [h] at hk
  have hj : j.kind = 2 := by simpa [hc] using hk.symm
  cases j with
  | num n =>
    obtain ⟨d, ds, hd, hnum⟩ := n.exists_cons
    simp only [render, hd, List.cons_append, List.cons.injEq] at h
    rw [h.1, hn] at hnum
    cases hnum
  | _ => cases hj

mutual

/-- No text begins with two different trees. -/
theorem render_append_inj (a b : Json) {r r' : List Char} (hr : EndsNumber r)
    (hr' : EndsNumber r') (h : render a ++ r = render b ++ r') : a = b ∧ r = r' := by
  have hkind : a.kind = b.kind := by
    have ha := kindOf_head a r
    rw [h, kindOf_head b r'] at ha
    simpa using ha.symm
  match a, b with
  | .null, .null => exact ⟨rfl, by simpa [render] using h⟩
  | .bool x, .bool y =>
    cases x <;> cases y <;> first
      | exact ⟨rfl, by simpa [render] using h⟩
      | simp [render] at h
  | .num m, .num n =>
    obtain ⟨rfl, hrest⟩ := Lexeme.append_inj hr hr' (by simpa only [render] using h)
    exact ⟨rfl, hrest⟩
  | .str s, .str t =>
    obtain ⟨rfl, hrest⟩ := quote_append_inj (by simpa only [render] using h)
    exact ⟨rfl, hrest⟩
  | .arr [], .arr [] => exact ⟨rfl, by simpa [render] using h⟩
  | .arr [], .arr (j :: items) =>
    simp only [render, List.cons_append, List.append_assoc, List.cons.injEq, true_and,
      List.nil_append] at h
    exact absurd h.symm (render_ne_close j _ _ (by decide) (by decide))
  | .arr (j :: items), .arr [] =>
    simp only [render, List.cons_append, List.append_assoc, List.cons.injEq, true_and,
      List.nil_append] at h
    exact absurd h (render_ne_close j _ _ (by decide) (by decide))
  | .arr (i :: items), .arr (j :: items') =>
    simp only [render, List.cons_append, List.append_assoc, List.cons.injEq, true_and] at h
    obtain ⟨rfl, htail⟩ := render_append_inj i j (endsNumber_renderItems _ _)
      (endsNumber_renderItems _ _) h
    obtain ⟨rfl, hrest⟩ := renderItems_append_inj items items' hr hr' htail
    exact ⟨rfl, hrest⟩
  | .obj [], .obj [] => exact ⟨rfl, by simpa [render] using h⟩
  | .obj [], .obj ((k, j) :: members) => simp [render, quote] at h
  | .obj ((k, j) :: members), .obj [] => simp [render, quote] at h
  | .obj ((k, i) :: members), .obj ((k', j) :: members') =>
    simp only [render, List.cons_append, List.append_assoc, List.cons.injEq, true_and] at h
    obtain ⟨rfl, hvalue⟩ := quote_append_inj h
    simp only [List.cons.injEq, true_and] at hvalue
    obtain ⟨rfl, htail⟩ := render_append_inj i j (endsNumber_renderMembers _ _)
      (endsNumber_renderMembers _ _) hvalue
    obtain ⟨rfl, hrest⟩ := renderMembers_append_inj members members' hr hr' htail
    exact ⟨rfl, hrest⟩

theorem renderItems_append_inj (as bs : List Json) {r r' : List Char} (hr : EndsNumber r)
    (hr' : EndsNumber r') (h : renderItems as ++ r = renderItems bs ++ r') :
    as = bs ∧ r = r' := by
  match as, bs with
  | [], [] => exact ⟨rfl, by simpa [renderItems] using h⟩
  | [], j :: items => simp [renderItems] at h
  | j :: items, [] => simp [renderItems] at h
  | i :: items, j :: items' =>
    simp only [renderItems, List.cons_append, List.append_assoc, List.cons.injEq,
      true_and] at h
    obtain ⟨rfl, htail⟩ := render_append_inj i j (endsNumber_renderItems _ _)
      (endsNumber_renderItems _ _) h
    obtain ⟨rfl, hrest⟩ := renderItems_append_inj items items' hr hr' htail
    exact ⟨rfl, hrest⟩

theorem renderMembers_append_inj (as bs : List (String × Json)) {r r' : List Char}
    (hr : EndsNumber r) (hr' : EndsNumber r')
    (h : renderMembers as ++ r = renderMembers bs ++ r') : as = bs ∧ r = r' := by
  match as, bs with
  | [], [] => exact ⟨rfl, by simpa [renderMembers] using h⟩
  | [], (k, j) :: members => simp [renderMembers] at h
  | (k, j) :: members, [] => simp [renderMembers] at h
  | (k, i) :: members, (k', j) :: members' =>
    simp only [renderMembers, List.cons_append, List.append_assoc, List.cons.injEq,
      true_and] at h
    obtain ⟨rfl, hvalue⟩ := quote_append_inj h
    simp only [List.cons.injEq, true_and] at hvalue
    obtain ⟨rfl, htail⟩ := render_append_inj i j (endsNumber_renderMembers _ _)
      (endsNumber_renderMembers _ _) hvalue
    obtain ⟨rfl, hrest⟩ := renderMembers_append_inj members members' hr hr' htail
    exact ⟨rfl, hrest⟩

end

/-- The text of a whole tree determines the tree. -/
theorem render_injective {a b : Json} (h : render a = render b) : a = b :=
  (render_append_inj a b endsNumber_nil endsNumber_nil (by simpa using h)).1

/-! ## Integers -/

/-- The decimal text of an integer. -/
def intChars : Int → List Char
  | .ofNat n => Nat.toDigits 10 n
  | .negSucc n => '-' :: Nat.toDigits 10 (n + 1)

theorem intChars_ne_nil (n : Int) : intChars n ≠ [] := by
  cases n with
  | ofNat n => exact Nat.toDigits_ne_nil
  | negSucc n => exact List.cons_ne_nil _ _

/-- An integer is written with digits and a sign. -/
theorem isDigit_or_sign_of_mem_intChars {n : Int} {c : Char} (h : c ∈ intChars n) :
    c.isDigit = true ∨ c = '-' := by
  cases n with
  | ofNat n => exact Or.inl (Nat.isDigit_of_mem_toDigits (by omega) (by omega) h)
  | negSucc n =>
    rcases List.mem_cons.mp h with h | h
    · exact Or.inr h
    · exact Or.inl (Nat.isDigit_of_mem_toDigits (by omega) (by omega) h)

/-- The lexeme of an integer. -/
def intLexeme (n : Int) : Lexeme where
  chars := intChars n
  nonempty := intChars_ne_nil n
  numeric := fun c hc => by
    rcases isDigit_or_sign_of_mem_intChars hc with h | h
    · simp [isNumberChar, h]
    · simp [isNumberChar, h]

private theorem toDigits_injective {m n : Nat} (h : Nat.toDigits 10 m = Nat.toDigits 10 n) :
    m = n := by
  have hm : Nat.ofDigitChars 10 (Nat.toDigits 10 m) 0 = m := Nat.ofDigitChars_ten_toDigits
  rw [h, Nat.ofDigitChars_ten_toDigits] at hm
  exact hm.symm

theorem intChars_injective {m n : Int} (h : intChars m = intChars n) : m = n := by
  have hsign : ∀ k l : Nat, Nat.toDigits 10 k ≠ '-' :: Nat.toDigits 10 l := by
    intro k l hk
    have hd : ('-' : Char).isDigit = true :=
      Nat.isDigit_of_mem_toDigits (n := k) (b := 10) (by omega) (by omega) (by rw [hk]; simp)
    exact absurd hd (by decide)
  cases m with
  | ofNat m =>
    cases n with
    | ofNat n => exact congrArg _ (toDigits_injective h)
    | negSucc n => exact absurd h (hsign m _)
  | negSucc m =>
    cases n with
    | ofNat n => exact absurd h.symm (hsign n _)
    | negSucc n =>
      simp only [intChars, List.cons.injEq, true_and] at h
      have := toDigits_injective h
      exact congrArg _ (by omega)

end CanonicalJson
