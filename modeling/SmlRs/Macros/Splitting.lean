/-
Module: SmlRs.Macros.Splitting
Purpose: How the body of a table is cut into rows, how a reverse row is turned and
  how a row without a trigger gets one, all on raw token trees.
Trusted boundary: none; spans and the spacing of punctuation are left out, and no
  body has so many tokens that the depth saturates.
Main exports: TokenTree, split_transitions, normalize_direction,
  normalize_transition, TransitionRow, transitions_split_iff
-/
import SmlRs.Lib.Brackets

namespace SmlRs.Macros.Splitting

open Lib

/-! ### Token trees -/

inductive Delimiter where
  | parenthesis
  | brace
  | bracket
  | none
deriving DecidableEq

/-- The token trees of a table. What is inside of a group is seen by no scanner. -/
inductive TokenTree where
  | group (delimiter : Delimiter) (stream : List TokenTree)
  | ident (name : String)
  | punct (char : Char)
  | literal (text : String)

namespace TokenTree

def is_punct (char : Char) : TokenTree → Bool
  | punct own => own = char
  | group _ _ | ident _ | literal _ => false

def is_bracket : TokenTree → Bool
  | group delimiter _ => delimiter = .bracket
  | ident _ | punct _ | literal _ => false

end TokenTree

abbrev TokenStream := List TokenTree

/-! ### The scanners -/

/-- The loop of `split_transitions`, on the tokens that are still ahead. -/
def split_loop : TokenStream → List TokenStream → TokenStream → Nat →
    List TokenStream
  | [], transitions, current, _ =>
      if current.isEmpty then transitions else transitions ++ [current]
  | token :: rest, transitions, current, angle_depth =>
      if token.is_punct '<' ∧ ¬ rest.head?.any (·.is_punct '=') then
        split_loop rest transitions (current ++ [token]) (angle_depth + 1)
      else if token.is_punct '>' ∧ 0 < angle_depth then
        split_loop rest transitions (current ++ [token]) (angle_depth - 1)
      else if token.is_punct ',' ∧ angle_depth = 0 then
        if current.isEmpty then split_loop rest transitions current angle_depth
        else split_loop rest (transitions ++ [current]) [] angle_depth
      else split_loop rest transitions (current ++ [token]) angle_depth

def split_transitions (body : TokenStream) : List TokenStream :=
  split_loop body [] [] 0

/-- `tokens.get(start..)`. -/
def range_from (tokens : TokenStream) (start : Nat) : Option TokenStream :=
  if start ≤ tokens.length then some (tokens.drop start) else none

/-- `tokens.get(..stop)`. -/
def range_to (tokens : TokenStream) (stop : Nat) : Option TokenStream :=
  if stop ≤ tokens.length then some (tokens.take stop) else none

def ok_or_else {α : Type} (value : Option α) (message : String) : Except String α :=
  value.elim (.error message) .ok

/-- The first window of two tokens that spells `<=`. -/
def reverse_position (tokens : TokenStream) : Option Nat :=
  (tokens.zip tokens.tail).findIdx? fun window =>
    window.1.is_punct '<' && window.2.is_punct '='

def normalize_direction (tokens : TokenStream) : Except String TokenStream :=
  match reverse_position tokens with
  | none => .ok tokens
  | some index => do
      let target ← ok_or_else (range_from tokens (index + 2))
        "reverse transition has an invalid target token range"
      let source ← ok_or_else (range_to tokens index)
        "reverse transition has an invalid source token range"
      pure (target ++ [.punct '='] ++ source)

/-- `+ completion<_>` -/
def completion : TokenStream :=
  [.punct '+', .ident "completion", .punct '<', .ident "_", .punct '>']

/-- Whether a missing trigger belongs in front of this token. -/
def inserts (token : TokenTree) : Bool :=
  token.is_punct '/' || token.is_punct '=' || token.is_bracket

def normalize_transition (transition : TokenStream) :
    Except String TokenStream := do
  let tokens ← normalize_direction transition
  if tokens.any (·.is_punct '+') then pure tokens
  else
    match tokens.findIdx? inserts with
    | none => pure tokens
    | some insertion => do
        let front ← ok_or_else (range_to tokens insertion)
          "transition has an invalid normalization range"
        let back ← ok_or_else (range_from tokens insertion)
          "transition has an invalid normalization suffix range"
        pure (front ++ completion ++ back)

/-! ### Rows -/

/-- A Rust type, as far as its tokens outside of groups go: angle brackets are
closed, and the `>` of an arrow closes none. Anything else may stand between them,
`,`, `+` and `=` among it. -/
inductive TypeTokens : TokenStream → Prop where
  | nil : TypeTokens []
  | plain {token : TokenTree} {rest : TokenStream}
      (opens : token.is_punct '<' = false) (closes : token.is_punct '>' = false)
      (further : TypeTokens rest) : TypeTokens (token :: rest)
  | arrow {rest : TokenStream} (further : TypeTokens rest) :
      TypeTokens (.punct '-' :: .punct '>' :: rest)
  | angle {inner rest : TokenStream} (argument : TypeTokens inner)
      (apart : inner.head?.any (·.is_punct '=') = false) (further : TypeTokens rest) :
      TypeTokens (.punct '<' :: (inner ++ .punct '>' :: rest))

/-- A token that no scanner looks for. -/
def Plain (token : TokenTree) : Prop :=
  ∀ char ∈ ['<', '>', '=', '+', ','], token.is_punct char = false

/-- States in front of a trigger or as a target: no scanner looks for their tokens,
but for the angle brackets around the child of a composite state. -/
inductive StateTokens : TokenStream → Prop where
  | nil : StateTokens []
  | plain {token : TokenTree} {rest : TokenStream} (own : Plain token)
      (apart : inserts token = false) (further : StateTokens rest) :
      StateTokens (token :: rest)
  | composite {child : String} {rest : TokenStream} (further : StateTokens rest) :
      StateTokens (.punct '<' :: .ident child :: .punct '>' :: rest)

/-- A trigger behind its `+`: no comma stands outside of its angle brackets, and
inside of them is a type. -/
inductive TriggerTokens : TokenStream → Prop where
  | nil : TriggerTokens []
  | plain {token : TokenTree} {rest : TokenStream} (own : Plain token)
      (further : TriggerTokens rest) : TriggerTokens (token :: rest)
  | angle {inner rest : TokenStream} (argument : TypeTokens inner)
      (apart : inner.head?.any (·.is_punct '=') = false)
      (further : TriggerTokens rest) :
      TriggerTokens (.punct '<' :: (inner ++ .punct '>' :: rest))

/-- One row of a table in its parts. -/
structure TransitionRow where
  /-- whether it is spelled `target <= source ...` -/
  reversed : Bool
  source : TokenStream
  /-- behind `+` -/
  trigger : Option TokenStream
  /-- between brackets -/
  guard : Option TokenStream
  /-- behind `/` -/
  action : Option TokenStream
  target : Option TokenStream
  source_some : source ≠ []
  source_states : StateTokens source
  trigger_tokens : ∀ tokens ∈ trigger, TriggerTokens tokens
  action_tokens : ∀ tokens ∈ action, ∀ token ∈ tokens, Plain token
  target_states : ∀ tokens ∈ target, StateTokens tokens
  /-- a row without a trigger says something else -/
  told : trigger = none → guard.isSome ∨ action.isSome ∨ target.isSome
  reverse_target : reversed → target.isSome

namespace TransitionRow

variable (row : TransitionRow)

def triggering : TokenStream :=
  (row.trigger.map (.punct '+' :: ·)).getD []

def acting : TokenStream :=
  (row.guard.map fun tokens => [.group .bracket tokens]).getD [] ++
    (row.action.map (.punct '/' :: ·)).getD []

def targeting : TokenStream :=
  (row.target.map (.punct '=' :: ·)).getD []

/-- The row in its forward spelling. -/
def forward : TokenStream :=
  row.source ++ row.triggering ++ row.acting ++ row.targeting

/-- The row as it is spelled. -/
def tokens : TokenStream :=
  if row.reversed then
    row.target.getD [] ++ .punct '<' :: .punct '=' ::
      (row.source ++ row.triggering ++ row.acting)
  else row.forward

/-- The row in its forward spelling with a trigger. -/
def triggered : TokenStream :=
  if row.trigger.isSome then row.forward
  else row.source ++ completion ++ row.acting ++ row.targeting

end TransitionRow

/-- The rows of a table, with a comma between them or behind each of them. -/
def table_body (rows : List TransitionRow) (trailing : Bool) : TokenStream :=
  joined (.punct ',') trailing (rows.map (·.tokens))

/-! ### Splitting as cutting between brackets -/

/-- What a token is to the splitter, given the token behind it. -/
def mark (token : TokenTree) (next : Option TokenTree) : Mark :=
  if token.is_punct '<' then
    if next.any (·.is_punct '=') then .other else .opens
  else if token.is_punct '>' then .closes
  else if token.is_punct ',' then .separates
  else .other

def marked : TokenStream → List (Mark × TokenTree)
  | [] => []
  | token :: rest => (mark token rest.head?, token) :: marked rest

section Marks

variable {token : TokenTree} {char : Char} {tokens front rest : TokenStream}

theorem is_punct_iff : token.is_punct char = true ↔ token = .punct char := by
  cases token with
  | punct own => simp [TokenTree.is_punct]
  | group _ _ => simp [TokenTree.is_punct]
  | ident _ => simp [TokenTree.is_punct]
  | literal _ => simp [TokenTree.is_punct]

theorem is_punct_apart (other : Char) (apart : other ≠ char)
    (own : token.is_punct char = true) : token.is_punct other = false := by
  rw [is_punct_iff.mp own]
  exact decide_eq_false apart.symm

theorem map_marked : (marked tokens).map Prod.snd = tokens := by
  induction tokens with
  | nil => rfl
  | cons token rest ih => rw [marked, List.map_cons, ih]

/-- A comma does not change what stands in front of it. -/
theorem marked_comma :
    marked (front ++ .punct ',' :: rest) =
      marked front ++ (.separates, .punct ',') :: marked rest := by
  induction front with
  | nil => rfl
  | cons token further ih =>
    rw [List.cons_append, marked, ih, marked, List.cons_append]
    cases further with
    | nil => rfl
    | cons _ _ => rfl

theorem marked_joined {trailing : Bool} {blocks : List TokenStream} :
    marked (joined (.punct ',') trailing blocks) =
      joined (.separates, .punct ',') trailing (blocks.map marked) := by
  induction blocks with
  | nil => rfl
  | cons block further ih =>
    cases further with
    | nil =>
      rw [List.map_cons, List.map_nil, joined, joined]
      cases trailing with
      | false =>
        rw [if_neg Bool.false_ne_true, if_neg Bool.false_ne_true, List.append_nil,
          List.append_nil]
      | true => exact marked_comma
    | cons next others =>
      have behind : marked (block ++ .punct ',' ::
          joined (.punct ',') trailing (next :: others)) = _ := marked_comma
      rw [ih] at behind
      exact behind

/-- The loop is the cut at the commas outside of brackets. -/
theorem split_loop_eq {transitions : List TokenStream} {current : TokenStream}
    {depth : Nat} :
    split_loop tokens transitions current depth =
      transitions ++ pieces (marked tokens) depth current := by
  induction tokens generalizing transitions current depth with
  | nil =>
    rw [split_loop, marked, pieces]
    cases current with
    | nil => exact (List.append_nil _).symm
    | cons _ _ => rfl
  | cons token rest ih =>
    rw [split_loop, marked, pieces, mark]
    by_cases opens : token.is_punct '<' = true
    · have no_close := is_punct_apart '>' (by decide) opens
      have no_cut := is_punct_apart ',' (by decide) opens
      by_cases arrow : rest.head?.any (·.is_punct '=') = true
      · simp [opens, no_close, no_cut, arrow, ih, Mark.after]
      · simp [opens, arrow, ih, Mark.after]
    · by_cases closes : token.is_punct '>' = true
      · have no_cut := is_punct_apart ',' (by decide) closes
        cases depth with
        | zero => simp [opens, closes, no_cut, ih, Mark.after]
        | succ depth => simp [opens, closes, ih, Mark.after]
      · by_cases cuts : token.is_punct ',' = true
        · cases depth with
          | zero =>
            cases current with
            | nil => simp [opens, closes, cuts, ih]
            | cons _ _ => simp [opens, closes, cuts, ih]
          | succ depth => simp [opens, closes, cuts, ih, Mark.after]
        · simp [opens, closes, cuts, ih, Mark.after]

theorem split_transitions_eq :
    split_transitions tokens = pieces (marked tokens) 0 [] :=
  split_loop_eq

end Marks

/-! ### Parts of a row -/

section Stretches

variable {token : TokenTree} {tokens front back inner rest : TokenStream}
  {less depth : Nat}

theorem reverse_position_cons :
    reverse_position (token :: rest) =
      if token.is_punct '<' && rest.head?.any (·.is_punct '=') then some 0
      else (reverse_position rest).map (· + 1) := by
  cases rest with
  | nil => simp [reverse_position]
  | cons next further =>
    simp only [reverse_position, List.tail_cons, List.zip_cons_cons,
      List.findIdx?_cons, List.head?_cons, Option.any_some]
    rfl

theorem no_equals_behind (apart : inner.head?.any (·.is_punct '=') = false) :
    (inner ++ [TokenTree.punct '>'] ++ rest).head?.any (·.is_punct '=') = false := by
  cases inner with
  | nil => rfl
  | cons _ _ => exact apart

/-- Tokens that a scanner for angle brackets leaves with no more open than before,
whatever stands behind them, and in which it finds no `<=`. -/
structure Stretch (tokens : TokenStream) : Prop where
  lowers : ∀ rest depth, ∃ less ≤ depth,
    depth_after depth (marked (tokens ++ rest)) = depth_after less (marked rest)
  skips : ∀ rest, reverse_position (tokens ++ rest) =
    (reverse_position rest).map (· + tokens.length)

namespace Stretch

theorem nil : Stretch [] where
  lowers rest depth := ⟨depth, Nat.le_refl _, rfl⟩
  skips rest := by
    rw [List.nil_append]
    cases reverse_position rest with
    | none => rfl
    | some _ => rfl

theorem append (first : Stretch front) (second : Stretch back) :
    Stretch (front ++ back) where
  lowers rest depth := by
    obtain ⟨less, at_most, same⟩ := first.lowers (back ++ rest) depth
    obtain ⟨least, further, equal⟩ := second.lowers rest less
    refine ⟨least, Nat.le_trans further at_most, ?_⟩
    rw [List.append_assoc, same, equal]
  skips rest := by
    rw [List.append_assoc, first.skips, second.skips, Option.map_map,
      List.length_append]
    apply congrArg (fun moved => (reverse_position rest).map moved)
    funext position
    change position + back.length + front.length = _
    omega

theorem single (opens : token.is_punct '<' = false) : Stretch [token] where
  lowers rest depth := by
    refine ⟨(mark token rest.head?).after depth, ?_, rfl⟩
    rw [mark, if_neg (Bool.eq_false_iff.mp opens)]
    split
    · exact Nat.sub_le _ _
    · split
      · exact Nat.le_refl _
      · exact Nat.le_refl _
  skips rest := by
    rw [List.singleton_append, reverse_position_cons, opens, Bool.false_and,
      if_neg Bool.false_ne_true]
    rfl

theorem cons (opens : token.is_punct '<' = false) (further : Stretch rest) :
    Stretch (token :: rest) :=
  (single opens).append further

/-- An angle bracket with what closes it. -/
theorem angle (argument : Stretch inner)
    (apart : inner.head?.any (·.is_punct '=') = false) :
    Stretch (.punct '<' :: (inner ++ [.punct '>'])) where
  lowers rest depth := by
    obtain ⟨less, at_most, same⟩ :=
      argument.lowers (.punct '>' :: rest) (depth + 1)
    refine ⟨less - 1, by omega, ?_⟩
    rw [List.cons_append, marked, mark, no_equals_behind apart, ← List.append_cons]
    exact same
  skips rest := by
    have closes : Stretch [.punct '>'] := single rfl
    rw [List.cons_append, reverse_position_cons, no_equals_behind apart,
      Bool.and_false, if_neg Bool.false_ne_true, (argument.append closes).skips, Option.map_map]
    rfl

theorem of_type (form : TypeTokens tokens) : Stretch tokens := by
  induction form with
  | nil => exact nil
  | plain opens _ _ ih => exact cons opens ih
  | arrow _ ih => exact cons rfl (cons rfl ih)
  | @angle inner rest _ apart _ ih further =>
    have both := (angle ih apart).append further
    rw [List.cons_append, List.append_assoc] at both
    exact both

theorem of_states (form : StateTokens tokens) : Stretch tokens := by
  induction form with
  | nil => exact nil
  | plain own _ _ ih => exact cons (own '<' List.mem_cons_self) ih
  | @composite child rest _ ih =>
    have one : Stretch [.ident child] := single rfl
    exact (angle one rfl).append ih

theorem of_trigger (form : TriggerTokens tokens) : Stretch tokens := by
  induction form with
  | nil => exact nil
  | plain own _ ih => exact cons (own '<' List.mem_cons_self) ih
  | angle argument apart _ ih =>
    have both := (angle (of_type argument) apart).append ih
    rw [List.cons_append, List.append_assoc] at both
    exact both

theorem of_plain (each : ∀ token ∈ tokens, Plain token) : Stretch tokens := by
  induction tokens with
  | nil => exact nil
  | cons token rest ih =>
    apply cons (each token List.mem_cons_self '<' List.mem_cons_self)
    exact ih fun other among => each other (List.mem_cons_of_mem _ among)

theorem settled (stretch : Stretch tokens) : depth_after 0 (marked tokens) = 0 := by
  obtain ⟨less, at_most, same⟩ := stretch.lowers [] 0
  rw [List.append_nil] at same
  exact same.trans (Nat.le_zero.mp at_most)

theorem no_reverse (stretch : Stretch tokens) : reverse_position tokens = none := by
  have behind := stretch.skips []
  rw [List.append_nil] at behind
  exact behind

end Stretch

/-- Behind the target of a reverse row. -/
theorem Stretch.settled_reverse (first : Stretch front) (second : Stretch back) :
    depth_after 0 (marked (front ++ .punct '<' :: .punct '=' :: back)) = 0 := by
  obtain ⟨less, at_most, same⟩ := first.lowers (.punct '<' :: .punct '=' :: back) 0
  rw [same, Nat.le_zero.mp at_most]
  exact second.settled

theorem Stretch.reverse_at (first : Stretch front) :
    reverse_position (front ++ .punct '<' :: .punct '=' :: back) =
      some front.length := by
  rw [first.skips, reverse_position_cons]
  exact congrArg some (Nat.zero_add _)

end Stretches

theorem StateTokens.quiet {tokens : TokenStream} {token : TokenTree}
    (form : StateTokens tokens) (among : token ∈ tokens) :
    token.is_punct '+' = false ∧ inserts token = false := by
  induction form with
  | nil => cases among
  | plain own apart _ ih =>
    rcases List.mem_cons.mp among with rfl | later
    · exact ⟨own '+' (by decide), apart⟩
    · exact ih later
  | composite _ ih =>
    simp only [List.mem_cons] at among
    rcases among with rfl | rfl | rfl | later
    · exact ⟨rfl, rfl⟩
    · exact ⟨rfl, rfl⟩
    · exact ⟨rfl, rfl⟩
    · exact ih later

namespace TransitionRow

variable (row : TransitionRow)

theorem triggering_stretch : Stretch row.triggering := by
  unfold triggering
  cases found : row.trigger with
  | none => exact Stretch.nil
  | some tokens =>
    apply Stretch.cons rfl
    exact Stretch.of_trigger (row.trigger_tokens tokens found)

theorem acting_stretch : Stretch row.acting := by
  unfold acting
  apply Stretch.append
  · cases row.guard with
    | none => exact Stretch.nil
    | some tokens => exact Stretch.single rfl
  · cases found : row.action with
    | none => exact Stretch.nil
    | some tokens =>
      apply Stretch.cons rfl
      exact Stretch.of_plain (row.action_tokens tokens found)

theorem targeting_stretch : Stretch row.targeting := by
  unfold targeting
  cases found : row.target with
  | none => exact Stretch.nil
  | some tokens =>
    apply Stretch.cons rfl
    exact Stretch.of_states (row.target_states tokens found)

theorem lead_stretch : Stretch (row.source ++ row.triggering ++ row.acting) := by
  apply Stretch.append _ row.acting_stretch
  exact (Stretch.of_states row.source_states).append row.triggering_stretch

theorem forward_stretch : Stretch row.forward :=
  row.lead_stretch.append row.targeting_stretch

/-- A row closes its angle brackets, so the splitter finds the comma behind it. -/
theorem settled : depth_after 0 (marked row.tokens) = 0 := by
  unfold tokens
  cases turned : row.reversed with
  | false =>
    rw [if_neg Bool.false_ne_true]
    exact row.forward_stretch.settled
  | true =>
    obtain ⟨target, found⟩ := Option.isSome_iff_exists.mp (row.reverse_target turned)
    rw [if_pos rfl, found, Option.getD_some]
    have first := Stretch.of_states (row.target_states target found)
    exact first.settled_reverse row.lead_stretch

theorem tokens_ne_nil : row.tokens ≠ [] := by
  intro empty
  unfold tokens at empty
  cases turned : row.reversed with
  | false =>
    rw [turned, if_neg Bool.false_ne_true] at empty
    unfold forward at empty
    simp only [List.append_eq_nil_iff] at empty
    exact row.source_some empty.1.1.1
  | true =>
    rw [turned, if_pos rfl] at empty
    exact List.append_ne_nil_of_right_ne_nil _ (List.cons_ne_nil _ _) empty

/-- Both spellings are normalized to the forward one. -/
theorem normalize_direction_tokens :
    normalize_direction row.tokens = .ok row.forward := by
  unfold tokens normalize_direction
  cases turned : row.reversed with
  | false =>
    rw [if_neg Bool.false_ne_true, row.forward_stretch.no_reverse]
  | true =>
    obtain ⟨target, found⟩ := Option.isSome_iff_exists.mp (row.reverse_target turned)
    have first := Stretch.of_states (row.target_states target found)
    rw [if_pos rfl, found, Option.getD_some, first.reverse_at]
    unfold forward targeting
    rw [found]
    simp [range_from, range_to, ok_or_else, pure, bind, Except.pure, Except.bind]

/-! ### Rows without a trigger -/

theorem source_quiet {token : TokenTree} (among : token ∈ row.source) :
    token.is_punct '+' = false ∧ inserts token = false :=
  row.source_states.quiet among

theorem acting_quiet {token : TokenTree} (among : token ∈ row.acting) :
    token.is_punct '+' = false := by
  unfold acting at among
  rcases List.mem_append.mp among with guards | acts
  · cases guarded : row.guard with
    | none =>
      rw [guarded] at guards
      cases guards
    | some guard =>
      rw [guarded] at guards
      rw [List.mem_singleton.mp guards]
      rfl
  · cases told : row.action with
    | none =>
      rw [told] at acts
      cases acts
    | some action =>
      rw [told] at acts
      rcases List.mem_cons.mp acts with rfl | later
      · rfl
      · exact row.action_tokens action told token later '+' (by decide)

theorem targeting_quiet {token : TokenTree} (among : token ∈ row.targeting) :
    token.is_punct '+' = false := by
  unfold targeting at among
  cases aim : row.target with
  | none =>
    rw [aim] at among
    cases among
  | some target =>
    rw [aim] at among
    rcases List.mem_cons.mp among with rfl | later
    · rfl
    · exact ((row.target_states target aim).quiet later).1

theorem quiet_of_untriggered (untriggered : row.trigger = none) :
    row.forward.any (·.is_punct '+') = false := by
  apply List.any_eq_false.mpr
  intro token among
  apply Bool.eq_false_iff.mp
  unfold forward triggering at among
  rw [untriggered] at among
  simp only [Option.map_none, Option.getD_none, List.append_nil,
    List.mem_append] at among
  rcases among with (source | acts) | aims
  · exact (row.source_quiet source).1
  · exact row.acting_quiet acts
  · exact row.targeting_quiet aims

/-- What follows the source of a row without a trigger shows where it belongs. -/
theorem effect_head (untriggered : row.trigger = none) :
    ∃ token further, row.acting ++ row.targeting = token :: further ∧
      inserts token = true := by
  unfold acting targeting
  cases guarded : row.guard with
  | some guard => exact ⟨_, _, rfl, rfl⟩
  | none =>
    cases acts : row.action with
    | some action => exact ⟨_, _, rfl, rfl⟩
    | none =>
      cases aim : row.target with
      | some target => exact ⟨_, _, rfl, rfl⟩
      | none =>
        rcases row.told untriggered with told | told | told
        · exact absurd told (by rw [guarded]; exact Bool.false_ne_true)
        · exact absurd told (by rw [acts]; exact Bool.false_ne_true)
        · exact absurd told (by rw [aim]; exact Bool.false_ne_true)

theorem insertion_at (untriggered : row.trigger = none) :
    row.forward.findIdx? inserts = some row.source.length := by
  obtain ⟨token, further, whole, here⟩ := row.effect_head untriggered
  have spelled : row.forward = row.source ++ token :: further := by
    unfold forward triggering
    rw [untriggered, ← whole]
    simp
  have nowhere : row.source.findIdx? inserts = none :=
    List.findIdx?_eq_none_iff.mpr fun token among => (row.source_quiet among).2
  rw [spelled, List.findIdx?_append, nowhere, List.findIdx?_cons, here]
  simp

/-- A trigger is put in exactly where a row has none. -/
theorem normalize_transition_tokens :
    normalize_transition row.tokens = .ok row.triggered := by
  unfold normalize_transition
  rw [row.normalize_direction_tokens]
  unfold triggered
  cases triggers : row.trigger with
  | some trigger =>
    have plus : row.forward.any (·.is_punct '+') = true := by
      unfold forward triggering
      rw [triggers]
      simp [TokenTree.is_punct]
    change (if row.forward.any (·.is_punct '+') then _ else _) = _
    rw [if_pos plus]
    rfl
  | none =>
    change (if row.forward.any (·.is_punct '+') then _ else _) = _
    rw [row.quiet_of_untriggered triggers, if_neg Bool.false_ne_true,
      row.insertion_at triggers]
    unfold forward triggering
    rw [triggers]
    simp [range_from, range_to, ok_or_else, pure, bind, Except.pure, Except.bind]

end TransitionRow

/-! ### Bodies -/

section Bodies

variable {token : TokenTree} {tokens : TokenStream}

theorem comma_of_separates {next : Option TokenTree}
    (separates : mark token next = .separates) : token = .punct ',' := by
  unfold mark at separates
  split at separates
  · split at separates
    · cases separates
    · cases separates
  · split at separates
    · cases separates
    · split at separates
      · exact is_punct_iff.mp ‹_›
      · cases separates

theorem comma_of_mem {entry : Mark × TokenTree} (among : entry ∈ marked tokens)
    (separates : entry.1 = .separates) : entry.2 = .punct ',' := by
  induction tokens with
  | nil => cases among
  | cons token rest ih =>
    rcases List.mem_cons.mp among with rfl | later
    · exact comma_of_separates separates
    · exact ih later

/-- The separators among the marks are the commas among the tokens. -/
theorem marked_split {front back : List (Mark × TokenTree)}
    (whole : marked tokens = front ++ (.separates, token) :: back) :
    ∃ outer rest, tokens = outer ++ .punct ',' :: rest ∧ front = marked outer := by
  have comma : token = .punct ',' := by
    apply @comma_of_mem tokens (.separates, token) _ rfl
    rw [whole]
    exact List.mem_append_right _ List.mem_cons_self
  subst comma
  have spelled :
      tokens = front.map Prod.snd ++ .punct ',' :: back.map Prod.snd := by
    rw [← @map_marked tokens, whole, List.map_append, List.map_cons]
  refine ⟨_, _, spelled, ?_⟩
  rw [spelled, marked_comma] at whole
  have lengths : (marked (front.map Prod.snd)).length = front.length := by
    rw [← List.length_map Prod.snd, map_marked, List.length_map]
  exact (List.append_inj whole lengths).1.symm

/-- Each comma of a row stands behind a stretch of the row with more `<` than `>`,
where the `<` of a `<=` counts for nothing and the `>` of an arrow counts. -/
def TransitionRow.Sheltered (row : TransitionRow) : Prop :=
  ∀ front back, row.tokens = front ++ .punct ',' :: back → EndsOpen (marked front)

theorem TransitionRow.sheltered_iff (row : TransitionRow) :
    row.Sheltered ↔ loose (marked row.tokens) 0 = 0 := by
  rw [loose_eq_zero_iff]
  constructor
  · intro sheltered front item back whole
    obtain ⟨outer, rest, spelled, same⟩ := marked_split whole
    rw [same]
    exact sheltered outer rest spelled
  · intro sheltered front back spelled
    apply sheltered (marked front) (.punct ',') (marked back)
    rw [spelled, marked_comma]

variable {rows : List TransitionRow} {trailing : Bool}

/-- The splitter finds the rows when it cuts none of them. -/
theorem split_table_body_iff :
    split_transitions (table_body rows trailing) = rows.map (·.tokens) ↔
      ∀ row ∈ rows, row.Sheltered := by
  have settled : ∀ block ∈ (rows.map (·.tokens)).map marked,
      depth_after 0 block = 0 := by
    intro block among
    obtain ⟨_, listed, rfl⟩ := List.mem_map.mp among
    obtain ⟨row, -, rfl⟩ := List.mem_map.mp listed
    exact row.settled
  have present : ∀ block ∈ (rows.map (·.tokens)).map marked, block ≠ [] := by
    intro block among empty
    obtain ⟨_, listed, rfl⟩ := List.mem_map.mp among
    obtain ⟨row, -, rfl⟩ := List.mem_map.mp listed
    apply row.tokens_ne_nil
    rw [← @map_marked row.tokens, empty, List.map_nil]
  have spelled : ((rows.map (·.tokens)).map marked).map (List.map Prod.snd) =
      rows.map (·.tokens) := by
    rw [List.map_map, List.map_map]
    exact List.map_congr_left fun row _ => map_marked
  have cut := @pieces_joined_iff _ (.punct ',') trailing _ settled present
  rw [spelled] at cut
  rw [split_transitions_eq, table_body, marked_joined, cut]
  constructor
  · intro tight row among
    apply row.sheltered_iff.mpr
    exact tight _ (List.mem_map_of_mem (List.mem_map_of_mem among))
  · intro sheltered block among
    obtain ⟨_, listed, rfl⟩ := List.mem_map.mp among
    obtain ⟨row, here, rfl⟩ := List.mem_map.mp listed
    exact row.sheltered_iff.mp (sheltered row here)

end Bodies

/-- The rows of a body are found, each is turned to its forward spelling, and the
rows without a trigger, and no others, get one. -/
def Normalized (rows : List TransitionRow) (trailing : Bool) : Prop :=
  split_transitions (table_body rows trailing) = rows.map (·.tokens) ∧
    ∀ row ∈ rows,
      normalize_direction row.tokens = .ok row.forward ∧
        normalize_transition row.tokens = .ok row.triggered

/-- Turning rows and completing triggers never goes wrong; the splitter goes wrong
where the arrows of a type have used up its angle brackets. -/
theorem transitions_normalized_iff (rows : List TransitionRow) (trailing : Bool) :
    Normalized rows trailing ↔ ∀ row ∈ rows, row.Sheltered := by
  unfold Normalized
  rw [split_table_body_iff]
  constructor
  · exact And.left
  · intro sheltered
    refine ⟨sheltered, ?_⟩
    intro row _
    exact ⟨row.normalize_direction_tokens, row.normalize_transition_tokens⟩

/-! ### A type with two arrows -/

theorem plain_ident (name : String) : Plain (.ident name) :=
  fun _ _ => rfl

/-- `fn(u8) -> u8, fn(u8) -> u8, u8` -/
def handler_arguments : TokenStream :=
  [.ident "fn", .group .parenthesis [.ident "u8"], .punct '-', .punct '>',
    .ident "u8", .punct ',',
    .ident "fn", .group .parenthesis [.ident "u8"], .punct '-', .punct '>',
    .ident "u8", .punct ',', .ident "u8"]

theorem handler_arguments_type : TypeTokens handler_arguments := by
  apply TypeTokens.plain rfl rfl
  apply TypeTokens.plain rfl rfl
  apply TypeTokens.arrow
  apply TypeTokens.plain rfl rfl
  apply TypeTokens.plain rfl rfl
  apply TypeTokens.plain rfl rfl
  apply TypeTokens.plain rfl rfl
  apply TypeTokens.arrow
  apply TypeTokens.plain rfl rfl
  apply TypeTokens.plain rfl rfl
  exact TypeTokens.plain rfl rfl TypeTokens.nil

/-- `Idle + event<Handler<fn(u8) -> u8, fn(u8) -> u8, u8>> = Ready` -/
def handler_row : TransitionRow where
  reversed := false
  source := [.ident "Idle"]
  trigger := some (.ident "event" :: .punct '<' ::
    ((.ident "Handler" :: .punct '<' :: (handler_arguments ++ [.punct '>'])) ++
      [.punct '>']))
  guard := none
  action := none
  target := some [.ident "Ready"]
  source_some := List.cons_ne_nil _ _
  source_states := .plain (plain_ident _) rfl .nil
  trigger_tokens := by
    intro tokens told
    obtain rfl := Option.some.inj told
    apply TriggerTokens.plain (plain_ident _)
    apply TriggerTokens.angle _ rfl .nil
    apply TypeTokens.plain rfl rfl
    exact TypeTokens.angle handler_arguments_type rfl .nil
  action_tokens := by
    intro tokens told
    cases told
  target_states := by
    intro tokens told
    obtain rfl := Option.some.inj told
    exact .plain (plain_ident _) rfl .nil
  told := fun _ => .inr (.inr rfl)
  reverse_target := fun turned => Bool.noConfusion turned

/-- Behind its second arrow the splitter takes the comma in the type for the end of
the row. -/
theorem handler_row_cut : ¬ ∀ rows trailing, Normalized rows trailing := by
  intro normalized
  have whole := congrArg List.length (normalized [handler_row] false).1
  exact absurd whole (by decide)

end SmlRs.Macros.Splitting
