import BuildMacros.Script.Grammar

/-! # One more argument

    Arguments are items with a comma behind each. Behind the last one the comma may
    be left out. `ReadTo` says how far a list was read and whether a comma is needed
    before one more item; a list is read if it is read up to its closing operator
    (`commaListUpTo_eq_ok_iff`).

    A string in quotes is an argument, whatever the nesting
    (`argument_string`): none of the rules it passes through finds an operator
    behind it. So a string that stands behind the arguments, with the comma that is
    needed, is read as the last argument (`arguments_quoted`).
-/

namespace BuildMacros.Script

open BuildMacros.Text

/-! ## Section 1: Strings in quotes -/

/-- A text that stands between single quotes as it is. -/
def IsVerbatim (text : List Char) : Prop := ∀ c ∈ text, c ≠ '\'' ∧ c ≠ '\\' ∧ c ≠ '\n' ∧ c ≠ '\r'

theorem stringChars_cons {c : Char} (h : c ≠ '\\') (quote : Char) (fuel : Nat) (rest : List Char) :
    stringChars quote (fuel + 1) (c :: rest) =
      if c = quote then some ([], rest)
      else if c = '\n' || c = '\r' then none
      else do
        let (more, rest) ← stringChars quote fuel rest
        return (c :: more, rest) := by
  rw [stringChars]
  exact h

theorem stringChars_verbatim {text : List Char} (h : IsVerbatim text) (rest : List Char)
    (fuel : Nat) :
    stringChars '\'' (fuel + text.length + 1) (text ++ '\'' :: rest) = some (text, rest) := by
  induction text with
  | nil => rw [List.nil_append, stringChars_cons (by decide), if_pos rfl]
  | cons c text ih =>
    obtain ⟨hquote, hslash, hfeed, hreturn⟩ := h c List.mem_cons_self
    have hmore := ih fun d hd => h d (List.mem_cons_of_mem c hd)
    rw [List.cons_append, stringChars_cons hslash, List.length_cons, ← Nat.add_assoc, hmore]
    simp [hquote, hfeed, hreturn]

/-- A text in single quotes, with what follows. -/
def inQuotes (text rest : List Char) : List Char := '\'' :: (text ++ '\'' :: rest)

theorem lexeme_inQuotes {text : List Char} (h : IsVerbatim text) (rest : List Char) :
    lexeme (inQuotes text rest) = (.string (String.ofList text), rest) := by
  have hlength : (inQuotes text rest).length = rest.length + 1 + text.length + 1 := by
    simp [inQuotes]
    omega
  rw [inQuotes, lexeme, if_pos (by decide), ← inQuotes, hlength, stringChars_verbatim h]

theorem lexeme_comma (rest : List Char) : lexeme (',' :: rest) = (.punct ",", rest) := by
  rfl

theorem lexeme_parenthesis (rest : List Char) : lexeme (')' :: rest) = (.punct ")", rest) := by
  rfl

/-- The text from its first token on. -/
def tokenText (text : List Char) : List Char := (skipTrivia (text.length + 1) false text).2

theorem scanToken_kind (pos : Nat) (text : List Char) :
    (scanToken pos text).kind = (lexeme (tokenText text)).1 := rfl

theorem scanToken_rest (pos : Nat) (text : List Char) :
    (scanToken pos text).rest = (lexeme (tokenText text)).2 := rfl

theorem tokenText_parenthesis (rest : List Char) : tokenText (')' :: rest) = ')' :: rest := by
  rfl

theorem tokenText_blank_inQuotes (text rest : List Char) :
    tokenText (' ' :: inQuotes text rest) = inQuotes text rest := by
  rfl

namespace Grammar

/-! ## Section 2: Rules, step by step -/

/-- An answer with another value. -/
def Reply.map {α β : Type} (f : α → β) : Reply α → Reply β
  | ok a s => .ok (f a) s
  | refused m => .refused m

@[simp] theorem Reply.map_ok {α β : Type} (f : α → β) (a : α) (s : State) :
    (Reply.ok a s).map f = .ok (f a) s := rfl

theorem Reply.map_eq_ok {α β : Type} {f : α → β} {r : Reply α} {b : β} {t : State}
    (h : r.map f = .ok b t) : ∃ a, r = .ok a t ∧ f a = b := by
  cases r with
  | refused m => cases h
  | ok a s =>
    cases h
    exact ⟨a, rfl, rfl⟩

/-- What a rule answers. -/
def Rule.run {α : Type} (r : Rule α) (c : Surroundings) (s : State) : Reply α := r c s

section

variable {α β : Type} (c : Surroundings) (s : State)

@[simp] theorem run_pure (a : α) : (pure a : Rule α).run c s = .ok a s := rfl

@[simp] theorem run_bind (r : Rule α) (f : α → Rule β) :
    (r >>= f).run c s =
      match r.run c s with
      | .ok a s => (f a).run c s
      | .refused m => .refused m := rfl

@[simp] theorem run_refuse : (refuse : Rule α).run c s = .refused s.notArrows := rfl

@[simp] theorem run_peek : peek.run c s = .ok s.token s := rfl

@[simp] theorem run_surroundings : surroundings.run c s = .ok c s := rfl

@[simp] theorem run_lastEnd : lastEnd.run c s = .ok s.pos s := rfl

@[simp] theorem run_nextStart : nextStart.run c s = .ok s.token.span.start s := rfl

@[simp] theorem run_advance : advance.run c s = .ok s.token s.behind := rfl

@[simp] theorem run_atPunct (p : String) : (atPunct p).run c s = .ok (s.token.isPunct p) s := rfl

@[simp] theorem run_atWord (w : String) : (atWord w).run c s = .ok (s.token.isWord w) s := rfl

@[simp] theorem run_ahead (r : Rule Bool) :
    (ahead r).run c s =
      match r.run c s with
      | .ok b _ => .ok b s
      | .refused _ => .ok false s := rfl

@[simp] theorem run_ite (p : Prop) [Decidable p] (r r' : Rule α) :
    (if p then r else r').run c s = if p then r.run c s else r'.run c s := by
  split <;> rfl

theorem run_expectWord (w : String) :
    (expectWord w).run c s =
      if s.token.isWord w then .ok () s.behind else .refused s.notArrows := rfl

@[simp] theorem run_acceptPunct (p : String) :
    (acceptPunct p).run c s = if s.token.isPunct p then .ok true s.behind else .ok false s := rfl

@[simp] theorem run_expectPunct (p : String) :
    (expectPunct p).run c s =
      if s.token.isPunct p then .ok () s.behind else .refused s.notArrows := rfl

end

/-- The next token is the one that the text begins with. So it is whenever a token was read. -/
def State.Scanned (s : State) : Prop := s.token = scanToken s.pos s.here

theorem State.scanned_behind (s : State) : s.behind.Scanned := rfl

/-! ## Section 3: Comma lists -/

section

variable {α : Type}

/-- Items were read, and a comma behind each. -/
inductive Separated (item : Rule α) (close : String) (c : Surroundings) :
    State → List α → State → Prop
  | nil (s : State) : Separated item close c s [] s
  | cons {s s₁ s' : State} {a : α} {as : List α} (hopen : s.token.isPunct close = false)
      (hitem : item.run c s = .ok a s₁) (hlast : s₁.token.isPunct close = false)
      (hcomma : s₁.token.isPunct "," = true) (hmore : Separated item close c s₁.behind as s') :
      Separated item close c s (a :: as) s'

/-- Items were read, and perhaps a comma behind the last one: a comma is needed before one more
    item if it was left out. -/
inductive ReadTo (item : Rule α) (close : String) (c : Surroundings) (s : State) :
    Bool → List α → State → Prop
  | separated {s' : State} {as : List α} (h : Separated item close c s as s') :
      ReadTo item close c s false as s'
  | last {s' s₁ : State} {as : List α} {a : α} (h : Separated item close c s as s')
      (hopen : s'.token.isPunct close = false) (hitem : item.run c s' = .ok a s₁) :
      ReadTo item close c s true (as ++ [a]) s₁

variable {item : Rule α} {close : String} {c : Surroundings}

/-- One turn of the loop: the list ends, or an item is read, and then the list ends or goes on
    behind a comma. -/
theorem commaListUpTo_succ (n : Nat) (s : State) :
    (commaListUpTo item close (n + 1)).run c s =
      if s.token.isPunct close then .ok [] s.behind
      else match item.run c s with
        | .refused m => .refused m
        | .ok a s₁ =>
          if s₁.token.isPunct close then .ok [a] s₁.behind
          else if s₁.token.isPunct "," then
            ((commaListUpTo item close n).run c s₁.behind).map (a :: ·)
          else .refused s₁.notArrows := by
  cases hclosed : s.token.isPunct close with
  | true => simp [commaListUpTo, hclosed]
  | false =>
    cases hitem : item.run c s with
    | refused m => simp [commaListUpTo, hclosed, hitem]
    | ok a s₁ =>
      cases hlast : s₁.token.isPunct close with
      | true => simp [commaListUpTo, hclosed, hitem, hlast]
      | false =>
        cases hcomma : s₁.token.isPunct "," with
        | true =>
          simp only [commaListUpTo, run_bind, run_acceptPunct, run_expectPunct, hclosed, hitem,
            hlast, hcomma, if_true, Bool.false_eq_true, if_false]
          cases (commaListUpTo item close n).run c s₁.behind <;> rfl
        | false => simp [commaListUpTo, hclosed, hitem, hlast, hcomma]

/-- The loop goes on behind items and their commas. -/
theorem commaListUpTo_separated {s s' : State} {as : List α}
    (h : Separated item close c s as s') (n : Nat) :
    (commaListUpTo item close (n + as.length)).run c s =
      ((commaListUpTo item close n).run c s').map (as ++ ·) := by
  induction h with
  | nil s => cases hmore : (commaListUpTo item close n).run c s <;> simp [Reply.map]
  | @cons s s₁ s' a as hopen hitem hlast hcomma hmore ih =>
    rw [List.length_cons, ← Nat.add_assoc, commaListUpTo_succ, hopen, hitem]
    simp only [Bool.false_eq_true, if_false, hlast, hcomma, if_true, ih]
    cases (commaListUpTo item close n).run c s' <;> rfl

theorem ReadTo.cons {s s₁ t : State} {a : α} {as : List α} {needed : Bool}
    (hopen : s.token.isPunct close = false) (hitem : item.run c s = .ok a s₁)
    (hlast : s₁.token.isPunct close = false) (hcomma : s₁.token.isPunct "," = true)
    (h : ReadTo item close c s₁.behind needed as t) : ReadTo item close c s needed (a :: as) t := by
  cases h with
  | separated h => exact .separated (.cons hopen hitem hlast hcomma h)
  | last h hopen' hitem' => exact .last (.cons hopen hitem hlast hcomma h) hopen' hitem'

/-- A list that is read has ended, ends behind an item, or goes on behind an item and a comma. -/
theorem cases_of_commaListUpTo_succ {n : Nat} {s t : State} {as : List α}
    (h : (commaListUpTo item close (n + 1)).run c s = .ok as t) :
    (s.token.isPunct close = true ∧ as = [] ∧ t = s.behind) ∨
      ∃ a s₁, s.token.isPunct close = false ∧ item.run c s = .ok a s₁ ∧
        ((s₁.token.isPunct close = true ∧ as = [a] ∧ t = s₁.behind) ∨
          ∃ as', s₁.token.isPunct close = false ∧ s₁.token.isPunct "," = true ∧
            (commaListUpTo item close n).run c s₁.behind = .ok as' t ∧ as = a :: as') := by
  rw [commaListUpTo_succ] at h
  split at h
  · next hclosed =>
    cases h
    exact .inl ⟨hclosed, rfl, rfl⟩
  · next hopen =>
    split at h
    · cases h
    · next a s₁ hitem =>
      refine .inr ⟨a, s₁, Bool.not_eq_true _ ▸ hopen, hitem, ?_⟩
      split at h
      · next hclosed =>
        cases h
        exact .inl ⟨hclosed, rfl, rfl⟩
      · next hlast =>
        split at h
        · next hcomma =>
          obtain ⟨as', hmore, rfl⟩ := Reply.map_eq_ok h
          exact .inr ⟨as', Bool.not_eq_true _ ▸ hlast, hcomma, hmore, rfl⟩
        · cases h

/-- A list that is read was read up to its closing operator. -/
theorem exists_readTo {n : Nat} {s t : State} {as : List α}
    (h : (commaListUpTo item close n).run c s = .ok as t) :
    ∃ needed s', ReadTo item close c s needed as s' ∧ as.length < n + needed.toNat ∧
      s'.token.isPunct close = true ∧ t = s'.behind := by
  induction n generalizing s as with
  | zero => cases h
  | succ n ih =>
    obtain ⟨hclosed, rfl, ht⟩ | ⟨a, s₁, hopen, hitem, h⟩ := cases_of_commaListUpTo_succ h
    · exact ⟨false, s, .separated (.nil s), n.succ_pos, hclosed, ht⟩
    · obtain ⟨hclosed, rfl, ht⟩ | ⟨as', hlast, hcomma, hmore, rfl⟩ := h
      · exact ⟨true, s₁, .last (.nil s) hopen hitem, Nat.succ_lt_succ n.succ_pos, hclosed, ht⟩
      · obtain ⟨needed, s', hread, hlength, hclosed, ht⟩ := ih hmore
        refine ⟨needed, s', hread.cons hopen hitem hlast hcomma, ?_, hclosed, ht⟩
        rw [List.length_cons]
        omega

/-- A list that was read up to its closing operator is read. -/
theorem ReadTo.commaListUpTo_eq {n : Nat} {s s' : State} {as : List α} {needed : Bool}
    (h : ReadTo item close c s needed as s') (hlength : as.length < n + needed.toNat)
    (hclosed : s'.token.isPunct close = true) :
    (commaListUpTo item close n).run c s = .ok as s'.behind := by
  cases h with
  | separated h =>
    obtain ⟨k, rfl⟩ := Nat.exists_eq_add_of_lt hlength
    rw [Nat.add_assoc, Nat.add_comm, commaListUpTo_separated h, commaListUpTo_succ, if_pos hclosed]
    simp
  | @last s₁ _ as a h hopen hitem =>
    rw [List.length_append, List.length_singleton, Bool.toNat_true, Nat.add_lt_add_iff_right]
      at hlength
    obtain ⟨k, rfl⟩ := Nat.exists_eq_add_of_lt hlength
    rw [Nat.add_assoc, Nat.add_comm, commaListUpTo_separated h, commaListUpTo_succ, hopen, hitem]
    simp [hclosed]

/-- **What a comma list is**: items up to the closing operator, with a comma behind each but
    perhaps the last one. -/
theorem commaListUpTo_eq_ok_iff {n : Nat} {s t : State} {as : List α} :
    (commaListUpTo item close n).run c s = .ok as t ↔
      ∃ needed s', ReadTo item close c s needed as s' ∧ as.length < n + needed.toNat ∧
        s'.token.isPunct close = true ∧ t = s'.behind := by
  constructor
  · exact exists_readTo
  · rintro ⟨needed, s', h, hlength, hclosed, rfl⟩
    exact h.commaListUpTo_eq hlength hclosed

end

/-! ## Section 4: A string as an argument -/

/-- The next token ends an argument. -/
def State.EndsArgument (s : State) : Prop := s.token.kind = .punct ")" ∨ s.token.kind = .punct ","

section

variable {c : Surroundings} {s : State}

theorem memberLink_endsArgument (call : Calls) (start : Nat) (brackets : Bool) (x : Chain)
    (h : s.EndsArgument) : (memberLink call start brackets x).run c s = .ok none s := by
  rcases h with h | h <;> simp [memberLink, h]

theorem attemptTypeArguments_endsArgument (call : Calls) (h : s.EndsArgument) :
    (attemptTypeArguments call).run c s = .ok none s := by
  rcases h with h | h <;> simp [attemptTypeArguments, Token.isPunct, h]

theorem links_endsArgument (call : Calls) (start n : Nat) (brackets : Bool) (x : Chain)
    (h : s.EndsArgument) : (links call start brackets (n + 1) x).run c s = .ok x s := by
  have hmember := memberLink_endsArgument (c := c) call start brackets x h
  have htypes := attemptTypeArguments_endsArgument (c := c) call h
  rcases h with h | h <;> simp [links, hmember, htypes, Token.isPunct, h]

theorem strongerOperator_endsArgument (level : Nat) (h : s.EndsArgument) :
    strongerOperator c s.token level = none := by
  rcases h with h | h <;> simp only [strongerOperator, operatorAhead, h] <;> rfl

theorem operators_endsArgument (call : Calls) (start level n : Nat) (e : Operand)
    (h : s.EndsArgument) : (operators call start level (n + 1) e).run c s = .ok e s := by
  simp [operators, strongerOperator_endsArgument level h]

theorem assignTo_endsArgument (call : Calls) (start : Nat) (annotated : Bool) (e : Operand)
    (h : s.EndsArgument) : (assignTo call start annotated e).run c s = .ok e s := by
  rcases h with h | h <;> simp [assignTo, operatorText, compoundAssignments, h]

theorem arrow?_string {value : String} (call : Calls) (annotated : Bool)
    (h : s.token.kind = .string value) : (arrow? call annotated).run c s = .ok none s := by
  have hbare : atBareArrow.run c s = .ok false s := by
    simp [atBareArrow, nameRule, h]
  have hname : atAsyncName.run c s = .ok false s := by
    simp [atAsyncName, run_expectWord, Token.isWord, h]
  have hparameters : atAsyncParameters.run c s = .ok false s := by
    simp [atAsyncParameters, run_expectWord, Token.isWord, h]
  simp [arrow?, hbare, hname, hparameters, Token.isPunct, h]

theorem primary_string {value : String} (call : Calls) (h : s.token.kind = .string value) :
    (primary call).run c s = .ok ⟨.string value s.token.span, .other⟩ s.behind := by
  simp [primary, h]

theorem chainRule_string {value : String} (call : Calls) (hlimit : 0 < c.limit)
    (h : s.token.kind = .string value) (hends : s.behind.EndsArgument) :
    (chainRule call false).run c s = .ok ⟨.string value s.token.span, .other⟩ s.behind := by
  obtain ⟨k, hk⟩ := Nat.exists_eq_add_of_lt hlimit
  have hlinks := fun x => links_endsArgument (c := c) call s.token.span.start k true x hends
  simp [chainRule, primary_string call h, Token.isWord, h, hk, hlinks]

/-! The rules between an argument and its operand pass the string on: what follows is no operator,
    so each of them answers what the one below it answered. -/

theorem unaryRule_string {value : String} {call : Calls} {e : Operand} {t : State}
    (hchain : (call (.chain false)).run c s = .ok e t)
    (h : s.token.kind = .string value) (hends : t.EndsArgument) :
    (unaryRule call).run c s = .ok e t := by
  rcases hends with hends | hends <;>
    simp [unaryRule, postfixed, h, hchain, Token.isPunct, hends]

theorem binaryRule_endsArgument {call : Calls} {e : Operand} {t : State} (level : Nat)
    (hlimit : 0 < c.limit) (hunary : (call .unary).run c s = .ok e t) (hends : t.EndsArgument) :
    (binaryRule call level).run c s = .ok e t := by
  obtain ⟨k, hk⟩ := Nat.exists_eq_add_of_lt hlimit
  simp [binaryRule, hunary, hk, operators_endsArgument call _ level _ e hends]

theorem assignmentRule_string {value : String} {call : Calls} {e : Operand} {t : State}
    (annotated : Bool) (hbinary : (call (.binary 0)).run c s = .ok e t)
    (h : s.token.kind = .string value) (hends : t.EndsArgument) :
    (assignmentRule call annotated).run c s = .ok e t := by
  have hassign := assignTo_endsArgument (c := c) call s.token.span.start annotated e hends
  rcases hends with hends | hends <;>
    simp [assignmentRule, arrow?_string call annotated h, hbinary, Token.isPunct, Token.isWord, h,
      hends, hassign]

/-- **A string is an argument**, at whatever depth of nesting the arguments are read. -/
theorem argument_string {value : String} (n : Nat) (hlimit : 0 < c.limit)
    (h : s.token.kind = .string value) (hends : s.behind.EndsArgument) :
    (argument (rules (n + 4))).run c s = .ok (.string value s.token.span) s.behind := by
  have hoperand : (operand (rules (n + 4))).run c s =
      .ok ⟨.string value s.token.span, .other⟩ s.behind := by
    have hchain := chainRule_string (c := { c with allowIn := true }) (rules n) hlimit h hends
    have hunary : (rules (n + 2) .unary).run { c with allowIn := true } s =
        .ok ⟨.string value s.token.span, .other⟩ s.behind := unaryRule_string hchain h hends
    have hbinary : (rules (n + 3) (.binary 0)).run { c with allowIn := true } s =
        .ok ⟨.string value s.token.span, .other⟩ s.behind :=
      binaryRule_endsArgument 0 hlimit hunary hends
    exact assignmentRule_string true hbinary h hends
  simp [argument, Token.isPunct, h, hoperand]

end

/-! ## Section 5: A string behind the arguments -/

section

variable {α : Type} {item : Rule α} {close : String} {c : Surroundings} {s s' s₁ : State} {a : α}
  {as : List α}

theorem Separated.scanned (h : Separated item close c s as s') (hs : s.Scanned) : s'.Scanned := by
  induction h with
  | nil s => exact hs
  | cons hopen hitem hlast hcomma hmore ih => exact ih (State.scanned_behind _)

theorem Separated.snoc (h : Separated item close c s as s')
    (hopen : s'.token.isPunct close = false) (hitem : item.run c s' = .ok a s₁)
    (hlast : s₁.token.isPunct close = false) (hcomma : s₁.token.isPunct "," = true) :
    Separated item close c s (as ++ [a]) s₁.behind := by
  induction h with
  | nil s => exact .cons hopen hitem hlast hcomma (.nil _)
  | cons hopen' hitem' hlast' hcomma' hmore ih =>
    exact .cons hopen' hitem' hlast' hcomma' (ih hopen hitem)

end

/-- What is written to give one more argument, in front of the closing parenthesis. -/
def oneMore (needed : Bool) (text rest : List Char) : List Char :=
  (if needed then [',', ' '] else []) ++ inQuotes text (')' :: rest)

section

variable {c : Surroundings} {s s' : State} {args : List Node} {text rest : List Char} {n : Nat}

/-- A scan that stands in front of a string and a closing parenthesis. -/
theorem State.Scanned.string (h : s.Scanned) (hverbatim : IsVerbatim text)
    (htext : tokenText s.here = inQuotes text (')' :: rest)) :
    s.token.kind = .string (String.ofList text) ∧ s.behind.token.kind = .punct ")" ∧
      s.behind.behind.here = rest := by
  have hhere : s.behind.here = ')' :: rest := by
    show s.token.rest = _
    rw [h, scanToken_rest, htext, lexeme_inQuotes hverbatim]
  refine ⟨?_, ?_, ?_⟩
  · rw [h, scanToken_kind, htext, lexeme_inQuotes hverbatim]
  · rw [s.scanned_behind, scanToken_kind, hhere, tokenText_parenthesis, lexeme_parenthesis]
  · show s.behind.token.rest = _
    rw [s.scanned_behind, scanToken_rest, hhere, tokenText_parenthesis, lexeme_parenthesis]

/-- A scan that stands in front of a comma, a string and a closing parenthesis. -/
theorem State.Scanned.comma (h : s.Scanned)
    (htext : tokenText s.here = ',' :: ' ' :: inQuotes text (')' :: rest)) :
    s.token.kind = .punct "," ∧ tokenText s.behind.here = inQuotes text (')' :: rest) := by
  have hhere : s.behind.here = ' ' :: inQuotes text (')' :: rest) := by
    show s.token.rest = _
    rw [h, scanToken_rest, htext, lexeme_comma]
  refine ⟨?_, ?_⟩
  · rw [h, scanToken_kind, htext, lexeme_comma]
  · rw [hhere, tokenText_blank_inQuotes]

/-- Behind arguments and their commas. -/
theorem arguments_separated (hverbatim : IsVerbatim text) (hopen : s.token.isPunct "(" = true)
    (h : Separated (argument (rules (n + 4))) ")" c s.behind args s')
    (hlimit : args.length < c.limit) (htext : tokenText s'.here = inQuotes text (')' :: rest)) :
    ∃ span t, (arguments (rules (n + 4))).run c s =
        .ok (args ++ [.string (String.ofList text) span]) t ∧
      t.Scanned ∧ t.here = rest ∧ t.pending = s'.pending := by
  obtain ⟨hkind, hclosing, hrest⟩ := (h.scanned s.scanned_behind).string hverbatim htext
  have hitem := argument_string (c := c) n (by omega) hkind (.inl hclosing)
  have hnot : s'.token.isPunct ")" = false := by simp [Token.isPunct, hkind]
  have hlist := (ReadTo.last h hnot hitem).commaListUpTo_eq (n := c.limit) (by simpa using hlimit)
    (by simp [Token.isPunct, hclosing])
  have hread : (arguments (rules (n + 4))).run c s =
      .ok (args ++ [.string (String.ofList text) s'.token.span]) s'.behind.behind := by
    simp [arguments, commaList, hopen, hlist]
  exact ⟨_, _, hread, State.scanned_behind _, hrest, rfl⟩

/-- **A string behind the arguments is the last argument.** Where the arguments were read and the
    text goes on with a string, after a comma if one is needed, and a closing parenthesis, the
    string is read as one more argument, and the script goes on behind the parenthesis. -/
theorem arguments_quoted {needed : Bool} (hverbatim : IsVerbatim text)
    (hopen : s.token.isPunct "(" = true)
    (h : ReadTo (argument (rules (n + 4))) ")" c s.behind needed args s') (hscanned : s'.Scanned)
    (hlimit : args.length < c.limit) (htext : tokenText s'.here = oneMore needed text rest) :
    ∃ span t, (arguments (rules (n + 4))).run c s =
        .ok (args ++ [.string (String.ofList text) span]) t ∧
      t.Scanned ∧ t.here = rest ∧ t.pending = s'.pending := by
  cases h with
  | separated h => exact arguments_separated hverbatim hopen h hlimit htext
  | last h hnot hitem =>
    obtain ⟨hcomma, hbehind⟩ := hscanned.comma htext
    have hitems := h.snoc hnot hitem (by simp [Token.isPunct, hcomma])
      (by simp [Token.isPunct, hcomma])
    obtain ⟨span, t, hread, ht⟩ := arguments_separated hverbatim hopen hitems hlimit hbehind
    exact ⟨span, t, hread, ht⟩

example : ∃ t, (arguments (rules 4)).run (.ofModule ⟨true, false⟩ 9)
    (.ofText 0 "(a /* one */, 'b')".toList) =
      .ok [.use ⟨"a", ⟨1, 2⟩⟩, .string "b" ⟨14, 17⟩] t :=
  ⟨_, rfl⟩

end

end Grammar

end BuildMacros.Script
