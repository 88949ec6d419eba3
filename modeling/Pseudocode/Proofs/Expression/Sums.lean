import Pseudocode.Proofs.Expression.Segments
import Pseudocode.Proofs.Infix.Mapped
import Pseudocode.Proofs.Infix.Reordering
import Pseudocode.Proofs.Token.Grouped

set_option autoImplicit false

namespace Pseudocode.Expression

open Infix
open Lexeme (Lexed lex)
open Text (bytes StandsAt)

def arithmetic (s : Store) (tokens : List (Spanned Token)) : Result Value := do
  Term.evaluate (← Term.toPostfix (← terms s tokens))

/-- The value of an expression that is not cut at `+`. -/
def unsplit (s : Store) (t : Text) : Result Value := do
  arithmetic s (← tokenize t)

/-- Every operand is an INTEGER in the store, and no operator is `/`. -/
structure WholeNumbers (s : Store) (tokens : List (Spanned Token)) : Prop where
  integers : ∀ t ∈ tokens, t.node.isOperand = true → ∃ n, operandValue s t = .ok (.integer n)
  undivided : ∀ t ∈ tokens, t.node ≠ .op .div

theorem WholeNumbers.tail {s : Store} {t : Spanned Token} {tokens : List (Spanned Token)}
    (whole : WholeNumbers s (t :: tokens)) : WholeNumbers s tokens :=
  ⟨fun u member => whole.integers u (List.mem_cons_of_mem t member),
    fun u member => whole.undivided u (List.mem_cons_of_mem t member)⟩

theorem unplaced_requireSet (what : Unset) (place other : Span) (v : Value) :
    unplaced (requireSet what place v) = unplaced (requireSet what other v) := by
  unfold requireSet
  split <;> rfl

theorem unplaced_withSpan {α : Type} (r : Result α) (place other : Span) :
    unplaced (r.mapError (·.withSpan place)) = unplaced (r.mapError (·.withSpan other)) := by
  cases r <;> rfl

theorem unplaced_toIndex (place other : Span) (r : Result Value) :
    unplaced (toIndex place r) = unplaced (toIndex other r) := by
  cases r with
  | error e => rfl
  | ok v => cases v <;> rfl

/-- The value of an operand does not depend on where it stands. -/
theorem unplaced_operandValue (s : Store) (t : Token) (offset : Nat) (place other : Span) :
    unplaced (operandValue s ⟨t.unshift offset, place⟩) = unplaced (operandValue s ⟨t, other⟩) := by
  cases t with
  | number text => exact unplaced_withSpan _ place other
  | ident name =>
      exact unplaced_bind (unplaced_withSpan _ place other) fun v =>
        unplaced_requireSet _ place other v
  | element name index =>
      exact unplaced_bind (unplaced_toIndex _ index.span (segmentValue s index.node)) fun i =>
        unplaced_bind (unplaced_withSpan _ place other) fun v => unplaced_requireSet _ place other v
  | op o => rfl
  | lparen => rfl
  | rparen => rfl
  | string content => rfl
  | char c => rfl
  | boolean b => rfl

theorem isOperand_unshift (t : Token) (offset : Nat) :
    (t.unshift offset).isOperand = t.isOperand := by
  cases t <;> rfl

theorem WholeNumbers.unshift {s : Store} {tokens : List (Spanned Token)}
    (whole : WholeNumbers s tokens) (offset : Nat) :
    WholeNumbers s (tokens.map (Token.unshiftAt offset)) := by
  constructor
  · intro u member operand
    obtain ⟨t, among, rfl⟩ := List.mem_map.mp member
    have operand_before : t.node.isOperand = true := by
      rwa [Token.unshiftAt, isOperand_unshift] at operand
    obtain ⟨n, valued⟩ := whole.integers t among operand_before
    exact ⟨n, eq_ok_of_unplaced (unplaced_operandValue s t.node offset _ t.span).symm valued⟩
  · intro u member divides
    obtain ⟨t, among, rfl⟩ := List.mem_map.mp member
    apply whole.undivided t among
    obtain ⟨node, place⟩ := t
    cases node <;> first | exact divides | cases divides

/-- The value of an operand. -/
def tokenValue (s : Store) (t : Token) : Value :=
  match operandValue s ⟨t, ⟨0, 0⟩⟩ with
  | .ok v => v
  | .error _ => .unset

theorem tokenValue_unshift (s : Store) (t : Token) (offset : Nat) :
    tokenValue s (t.unshift offset) = tokenValue s t := by
  have same := unplaced_operandValue s t offset ⟨0, 0⟩ ⟨0, 0⟩
  unfold tokenValue
  cases before : operandValue s ⟨t, ⟨0, 0⟩⟩ with
  | ok v => rw [eq_ok_of_unplaced same.symm before]
  | error e =>
      cases after : operandValue s ⟨t.unshift offset, ⟨0, 0⟩⟩ with
      | ok v =>
          rw [eq_ok_of_unplaced same after] at before
          cases before
      | error e' => rfl

theorem tokenValue_eq {s : Store} {t : Spanned Token} {v : Value}
    (valued : operandValue s t = .ok v) : tokenValue s t.node = v := by
  have same := unplaced_operandValue s t.node 0 ⟨0, 0⟩ t.span
  rw [← tokenValue_unshift s t.node 0, tokenValue, eq_ok_of_unplaced same.symm valued]

def termOf (value : Token → Value) : Token → Term
  | .op o => .op o
  | .lparen => .lparen
  | .rparen => .rparen
  | t => .operand (value t)

theorem symbol_termOf (value : Token → Value) (t : Token) :
    (termOf value t).symbol = t.symbol.map value := by
  cases t <;> rfl

theorem symbols_map_termOf (value : Token → Value) (tokens : List (Spanned Token)) :
    Term.symbols (tokens.map (Spanned.map (termOf value))) =
      (Token.symbols tokens).map (relabel value id) := by
  unfold Term.symbols Token.symbols
  rw [List.map_map, List.map_map]
  refine List.map_congr_left fun t _ => ?_
  simp only [Function.comp_apply, Spanned.map, relabel, symbol_termOf, id_eq]

theorem termWith_eq_operand {s : Store} {t : Spanned Token} {v : Value}
    (operand : t.node.isOperand = true) (valued : operandValue s t = .ok v)
    (numeric : v.isNumeric = true) :
    termWith s t (fun index _ => indexValue s index) = .ok (.operand v) := by
  obtain ⟨node, place⟩ := t
  cases node with
  | op o => cases operand
  | lparen => cases operand
  | rparen => cases operand
  | _ =>
      change (operandValue s _ >>= _) = _
      rw [valued]
      exact if_pos numeric

theorem termOf_operand {value : Token → Value} {t : Token} (operand : t.isOperand = true) :
    termOf value t = .operand (value t) := by
  cases t <;> first | rfl | cases operand

theorem termWith_eq_termOf {s : Store} {t : Spanned Token}
    (integer : t.node.isOperand = true → ∃ n, operandValue s t = .ok (.integer n)) :
    termWith s t (fun index _ => indexValue s index) = .ok (termOf (tokenValue s) t.node) := by
  cases operand : t.node.isOperand with
  | true =>
      obtain ⟨n, valued⟩ := integer operand
      rw [termWith_eq_operand operand valued rfl, termOf_operand operand, tokenValue_eq valued]
  | false =>
      obtain ⟨node, place⟩ := t
      cases node <;> first | rfl | cases operand

theorem terms_eq {s : Store} {tokens : List (Spanned Token)} (whole : WholeNumbers s tokens) :
    terms s tokens = .ok (tokens.map (Spanned.map (termOf (tokenValue s)))) := by
  induction tokens with
  | nil => rfl
  | cons t rest ih =>
      have first := termWith_eq_termOf (whole.integers t List.mem_cons_self)
      change (termWith s t (fun index _ => indexValue s index) >>= fun term =>
        terms s rest >>= fun others => pure (⟨term, t.span⟩ :: others)) = _
      rw [first, ih whole.tail]
      rfl

theorem arithmetic_eq_value {s : Store} {tokens : List (Spanned Token)} {tree : Infix.Tree Token}
    (derived : Derives .sum (Token.symbols tokens) tree) (whole : WholeNumbers s tokens) :
    arithmetic s tokens = (tree.map (tokenValue s) id).value := by
  have mapped := derived.map (tokenValue s) id
  rw [← symbols_map_termOf] at mapped
  have reordered := toPostfix_terms mapped
  rw [terms_symbols] at reordered
  rw [arithmetic, terms_eq whole]
  change (Term.toPostfix _ >>= _) = _
  rw [reordered]
  exact evaluate_postorder _

/-- A segment of whole numbers has the value of its tree. -/
theorem segmentValue_eq_value {s : Store} {t : Text} {tokens : List (Spanned Token)}
    {tree : Infix.Tree Token} (read : tokenize t = .ok tokens)
    (derived : Derives .sum (Token.symbols tokens) tree) (whole : WholeNumbers s tokens) :
    segmentValue s t = (tree.map (tokenValue s) id).value := by
  rw [← arithmetic_eq_value derived whole, segmentValue_eq, read]
  change tokensValue s (bytes t) tokens _ = _
  match tokens, derived, whole with
  | [], derived, _ => cases alternates_of_derivable ⟨tree, derived⟩
  | [t], _, whole =>
      rw [tokensValue]
      cases operand : t.node.isOperand with
      | true =>
          obtain ⟨n, valued⟩ := whole.integers t List.mem_cons_self operand
          have term : termOf (tokenValue s) t.node = .operand (.integer n) := by
            rw [termOf_operand operand, tokenValue_eq valued]
          rw [arithmetic, terms_eq whole, if_pos rfl, List.map_singleton, Spanned.map, term]
          exact valued
      | false => rfl
  | _ :: _ :: _, _, _ => rfl

theorem eq_integer_of_toIndex {place : Span} {r : Result Value} {i : Int64}
    (found : toIndex place r = .ok i) : r = .ok (.integer i) := by
  unfold toIndex at found
  split at found <;> cases found
  rfl

theorem exists_value_of_index {s : Store} {t : Spanned Token} {v : Value} {index : Spanned Text}
    (valued : operandValue s t = .ok v) (has : t.node.index? = some index) :
    ∃ w, segmentValue s index.node = .ok w := by
  obtain ⟨node, place⟩ := t
  cases node with
  | element name inner =>
      cases has
      obtain ⟨i, found, _⟩ := bind_eq_ok valued
      exact ⟨_, eq_integer_of_toIndex found⟩
  | _ => cases has

theorem isOperand_of_index {t : Token} {index : Spanned Text} (has : t.index? = some index) :
    t.isOperand = true := by
  cases t <;> first | rfl | cases has

theorem exists_value_of_terms {s : Store} {tokens : List (Spanned Token)}
    {given : List (Spanned Term)} (made : terms s tokens = .ok given) :
    ∀ t ∈ tokens, t.node.isOperand = true → ∃ v, operandValue s t = .ok v := by
  induction tokens generalizing given with
  | nil => exact List.forall_mem_nil _
  | cons t rest ih =>
      obtain ⟨term, first, made⟩ := bind_eq_ok made
      obtain ⟨others, later, _⟩ := bind_eq_ok made
      refine List.forall_mem_cons.mpr ⟨fun operand => ?_, ih later⟩
      obtain ⟨node, place⟩ := t
      cases node with
      | op o => cases operand
      | lparen => cases operand
      | rparen => cases operand
      | _ =>
          obtain ⟨v, valued, _⟩ := bind_eq_ok first
          exact ⟨v, valued⟩

/-- Where a segment has a value, so have its operands. -/
theorem exists_value_of_tokensValue {s : Store} {total : Nat} {tokens : List (Spanned Token)}
    {v : Value}
    (valued : tokensValue s total tokens (fun _ _ index _ => indexValue s index) = .ok v) :
    ∀ t ∈ tokens, t.node.isOperand = true → ∃ w, operandValue s t = .ok w := by
  match tokens, valued with
  | [], _ => exact List.forall_mem_nil _
  | [t], valued =>
      rw [tokensValue] at valued
      cases operand : t.node.isOperand with
      | true =>
          rw [if_pos operand] at valued
          exact List.forall_mem_singleton.mpr fun _ => ⟨v, valued⟩
      | false =>
          refine List.forall_mem_singleton.mpr fun other => ?_
          rw [operand] at other
          cases other
  | _ :: _ :: _, valued =>
      obtain ⟨given, made, _⟩ := bind_eq_ok valued
      exact exists_value_of_terms made

/-- A segment that has a value closes its parentheses and brackets, and never more than it
opened. The recursion is into the indices. -/
theorem nests_of_segmentValue {s : Store} {t : Text} {v : Value} {pos : Nat}
    {lexemes : List (Spanned Lexeme)} (valued : segmentValue s t = .ok v)
    (lexed : Lexed pos t lexemes) : Scan.Nests (·.node.weight) 0 lexemes := by
  induction size : t.length using Nat.strongRecOn generalizing t v pos lexemes with
  | ind n ih =>
      rw [segmentValue_eq] at valued
      obtain ⟨tokens, read, valued⟩ := bind_eq_ok valued
      obtain ⟨alone, lexed_alone, grouped⟩ := exists_grouped_of_tokenize read
      have sheltered : Token.Sheltered tokens := by
        intro u member index has place inner inside
        obtain ⟨w, operand⟩ := exists_value_of_tokensValue valued u member (isOperand_of_index has)
        obtain ⟨x, index_value⟩ := exists_value_of_index operand has
        have shorter : index.node.length < n := size ▸ Token.index_shorter read member has
        exact ih _ shorter index_value inside rfl
      have nests := grouped.nests sheltered (nests_of_balanced (balanced_of_tokensValue valued))
      have moved := lexed.unshift (Nat.le_refl pos)
      rw [Nat.sub_self] at moved
      rw [lexed_alone.unique moved, Scan.nests_map] at nests
      exact nests

theorem sheltered_of_whole {s : Store} {tokens : List (Spanned Token)}
    (whole : WholeNumbers s tokens) : Token.Sheltered tokens := by
  intro t member index has place inner inside
  obtain ⟨n, valued⟩ := whole.integers t member (isOperand_of_index has)
  obtain ⟨v, index_value⟩ := exists_value_of_index valued has
  exact nests_of_segmentValue index_value inside

theorem agree_of_standsAt {whole part : Text} {start : Nat} {lexemes : List (Spanned Lexeme)}
    (stands : StandsAt whole start part) (lexed : Lexed start part lexemes) :
    Token.Agree whole part start lexemes := by
  obtain ⟨front, back, rfl, rfl⟩ := stands
  refine lexed.pairwise_between.imp fun {x y} between => ?_
  obtain ⟨a, m, b, rfl, stop, start⟩ := between
  have inner := Text.slice_append a m b
  have outer := Text.slice_append (front ++ a) m (b ++ back)
  rw [Text.bytes_append, ← start, ← stop] at outer
  simp only [List.append_assoc] at inner outer ⊢
  have here : x.span.stop - bytes front = bytes a := by omega
  have there : y.span.start - bytes front = bytes a + bytes m := by omega
  rw [here, there, inner, outer]

theorem symbols_map_unshiftAt (tokens : List (Spanned Token)) (offset : Nat) :
    Token.symbols (tokens.map (Token.unshiftAt offset)) =
      (Token.symbols tokens).map (relabel (Token.unshift offset) (·.unshift offset)) := by
  unfold Token.symbols
  rw [List.map_map, List.map_map]
  refine List.map_congr_left fun t _ => ?_
  obtain ⟨node, place⟩ := t
  cases node <;> rfl

/-- A segment has the value of its tree, wherever it stands. -/
theorem unplaced_segmentValue {s : Store} {t : Text} {piece : Spanned Text}
    {lexemes : List (Spanned Lexeme)} {tokens : List (Spanned Token)} {tree : Infix.Tree Token}
    (stands : StandsAt t piece.span.start piece.node)
    (lexed : Lexed piece.span.start piece.node lexemes)
    (grouped : Token.Grouped t true lexemes tokens)
    (derived : Derives .sum (Token.symbols tokens) tree) (whole : WholeNumbers s tokens) :
    unplaced (segmentValue s piece.node) = unplaced (tree.map (tokenValue s) id).value := by
  have alone := lexed.unshift (Nat.le_refl piece.span.start)
  rw [Nat.sub_self] at alone
  have after : ∀ l ∈ lexemes, piece.span.start ≤ l.span.stop := by
    intro l member
    have := lexed.ordered l member
    omega
  have read := tokenize_of_grouped alone (grouped.unshift (agree_of_standsAt stands lexed) after)
  have moved := derived.map (Token.unshift piece.span.start) (·.unshift piece.span.start)
  rw [← symbols_map_unshiftAt] at moved
  have same : tokenValue s ∘ Token.unshift piece.span.start = tokenValue s :=
    funext fun u => tokenValue_unshift s u _
  rw [segmentValue_eq_value read moved (whole.unshift _), Infix.Tree.map_map, same]
  exact Infix.Tree.unplaced_value_map _ _ _ _

theorem unplaced_segmentValues {s : Store} {t : Text} {found : List (Spanned Text)}
    {pieces : List (List (Spanned Lexeme))} {groups : List (List (Spanned Token))}
    {trees : List (Infix.Tree Token)}
    (standing : List.Forall₂
      (fun piece lexemes => StandsAt t piece.span.start piece.node ∧
        Lexed piece.span.start piece.node lexemes) found pieces)
    (grouped : List.Forall₂ (Token.Grouped t true) pieces groups)
    (derived : List.Forall₂ (fun tokens tree => Derives .sum (Token.symbols tokens) tree) groups
      trees)
    (whole : ∀ tokens ∈ groups, WholeNumbers s tokens) :
    List.Forall₂
      (fun piece tree => unplaced (segmentValue s piece.node) =
        unplaced (tree.map (tokenValue s) id).value) found trees := by
  induction standing generalizing groups trees with
  | nil =>
      cases grouped
      cases derived
      exact .nil
  | cons here _ ih =>
      cases grouped with
      | cons group others =>
          cases derived with
          | cons phrase phrases =>
              rw [List.forall_mem_cons] at whole
              exact .cons (unplaced_segmentValue here.1 here.2 group phrase whole.1)
                (ih others phrases whole.2)

theorem WholeNumbers.of_subset {s : Store} {tokens others : List (Spanned Token)}
    (whole : WholeNumbers s tokens) (subset : ∀ t ∈ others, t ∈ tokens) : WholeNumbers s others :=
  ⟨fun t member => whole.integers t (subset t member),
    fun t member => whole.undivided t (subset t member)⟩

/-- The segments of a sum of whole numbers have the values of trees that regroup its own. -/
theorem segments_regroup {s : Store} {t : Text} {tokens : List (Spanned Token)}
    {tree : Infix.Tree Token} (read : tokenize t = .ok tokens)
    (derived : Derives .sum (Token.symbols tokens) tree) (whole : WholeNumbers s tokens) :
    ∃ found trees, segments t = .ok found ∧ Regroups tree trees ∧
      List.Forall₂
        (fun piece tree => unplaced (segmentValue s piece.node) =
          unplaced (tree.map (tokenValue s) id).value) found trees := by
  obtain ⟨lexemes, lexed, grouped⟩ := exists_grouped_of_tokenize read
  obtain ⟨piece, pieces, group, groups, cut, parted, first, others⟩ :=
    grouped.cut (sheltered_of_whole whole) (Int.le_refl 0) derived.nests
  obtain ⟨trees, regroups, phrases⟩ := derived.regroups
  have matched : List.Forall₂ (Token.Grouped t true) (Lexeme.scan.cut 0 lexemes)
      (Token.scan.cut 0 tokens) := by
    rw [cut, parted]
    exact .cons first others
  have groups_eq : Infix.scan.cut 0 (Token.symbols tokens) =
      (Token.scan.cut 0 tokens).map Token.symbols := Scan.cut_map _ _ _ _
  rw [groups_eq, List.forall₂_map_left_iff] at phrases
  have full : ∀ piece ∈ Lexeme.scan.cut 0 lexemes, piece ≠ [] := by
    rintro piece member rfl
    obtain ⟨group, among, empty⟩ := exists_related matched member
    obtain ⟨tree, _, derived⟩ := exists_related phrases among
    cases empty
    cases alternates_of_derivable ⟨tree, derived⟩
  obtain ⟨found, made⟩ := exists_segments lexed grouped.closed full
  refine ⟨found, trees, made, regroups, ?_⟩
  refine unplaced_segmentValues (forall₂_segments lexed grouped.closed made) matched phrases ?_
  exact fun group among => whole.of_subset fun t member => Token.scan.mem_of_mem_cut among member

theorem unplaced_segmentAt (s : Store) (piece : Spanned Text) :
    unplaced (segmentAt s piece) = unplaced (segmentValue s piece.node) := by
  rw [segmentAt, unplaced_mapError]
  exact fun _ => rfl

/-- Adding up segments with exact values. -/
theorem yields_foldlM_joinSegment {s : Store} {found : List (Spanned Text)} {ns : List Int}
    (all : List.Forall₂ (fun piece n => Yields (segmentAt s piece) n) found ns) {r : Result Value}
    {m : Int} (first : Yields r m) :
    Yields (r >>= fun v => found.foldlM (joinSegment s) v) (m + ns.sum) := by
  induction all generalizing r m with
  | nil =>
      rw [List.sum_nil, Int.add_zero]
      cases r <;> exact first
  | @cons piece n found ns here _ ih =>
      have joined : Yields (r >>= fun v => joinSegment s v piece) (m + n) := by
        refine first.bind fun i value => here.bind fun j other => ?_
        rw [← value, ← other]
        refine (yields_exactly .add (i.toInt + j.toInt)).of_unplaced ?_
        rw [unplaced_mapError]
        · rfl
        · exact fun _ => rfl
      have later := ih joined
      rw [List.sum_cons, ← Int.add_assoc]
      cases r <;> exact later

theorem foldlM_joinSegment_fails {s : Store} {found : List (Spanned Text)} {piece : Spanned Text}
    (member : piece ∈ found) (failed : ∃ e, segmentAt s piece = .error e) (v : Value) :
    ∃ e, found.foldlM (joinSegment s) v = .error e := by
  induction found generalizing v with
  | nil => cases member
  | cons first rest ih =>
      rw [List.foldlM_cons]
      cases joined : joinSegment s v first with
      | error e => exact ⟨e, rfl⟩
      | ok w =>
          rcases List.mem_cons.mp member with rfl | member
          · obtain ⟨e, failed⟩ := failed
            rw [joinSegment, failed] at joined
            cases joined
          · exact ih member w

theorem evaluate_eq_of_segments {s : Store} {t : Text} {first : Spanned Text}
    {rest : List (Spanned Text)} (made : segments t = .ok (first :: rest)) :
    evaluate s t = (segmentAt s first >>= fun v => rest.foldlM (joinSegment s) v) := by
  rw [evaluate, made]
  rfl

theorem yields_of_trees {s : Store} {found : List (Spanned Text)} {trees : List (Infix.Tree Token)}
    {ns : List Int}
    (values : List.Forall₂
      (fun piece tree => unplaced (segmentValue s piece.node) =
        unplaced (tree.map (tokenValue s) id).value) found trees)
    (yields : List.Forall₂ (fun tree n => Yields (tree.map (tokenValue s) id).value n) trees ns) :
    List.Forall₂ (fun piece n => Yields (segmentAt s piece) n) found ns := by
  induction values generalizing ns with
  | nil =>
      cases yields
      exact .nil
  | @cons piece tree found trees here _ ih =>
      cases yields with
      | cons first others =>
          have same := (unplaced_segmentAt s piece).trans here
          exact .cons (first.of_unplaced same.symm) (ih others)

theorem whole_map_tokenValue {s : Store} {tokens : List (Spanned Token)} {tree : Infix.Tree Token}
    (derived : Derives .sum (Token.symbols tokens) tree) (whole : WholeNumbers s tokens) :
    (tree.map (tokenValue s) id).Whole := by
  refine (derived.map (tokenValue s) id).whole fun x member => ?_
  rw [← symbols_map_termOf, Term.symbols, List.map_map] at member
  obtain ⟨t, among, rfl⟩ := List.mem_map.mp member
  change (termOf (tokenValue s) t.node).symbol.Whole
  cases operand : t.node.isOperand with
  | true =>
      obtain ⟨n, valued⟩ := whole.integers t among operand
      rw [termOf_operand operand]
      exact ⟨n, tokenValue_eq valued⟩
  | false =>
      have undivided := whole.undivided t among
      obtain ⟨node, place⟩ := t
      cases node with
      | op o => exact fun divides => undivided (congrArg Token.op divides)
      | lparen => trivial
      | rparen => trivial
      | _ => cases operand

/-- Cut and uncut, a sum of whole numbers has the same exact value or none. -/
theorem yields_or_fails {s : Store} {t : Text} {tokens : List (Spanned Token)}
    (read : tokenize t = .ok tokens) (derivable : Derivable .sum (Token.symbols tokens))
    (whole : WholeNumbers s tokens) :
    (∃ n, Yields (evaluate s t) n ∧ Yields (unsplit s t) n) ∨
      (∃ e, evaluate s t = .error e) ∧ ∃ e, unsplit s t = .error e := by
  obtain ⟨tree, derived⟩ := derivable
  obtain ⟨found, trees, made, regroups, values⟩ := segments_regroup read derived whole
  have uncut : unsplit s t = (tree.map (tokenValue s) id).value := by
    rw [unsplit, read]
    exact arithmetic_eq_value derived whole
  obtain ⟨first, rest, rfl⟩ : ∃ first rest, found = first :: rest := by
    cases values with
    | nil => exact absurd rfl regroups.ne_nil
    | cons => exact ⟨_, _, rfl⟩
  rw [uncut, evaluate_eq_of_segments made]
  rcases (regroups.map (tokenValue s) id).yields (whole_map_tokenValue derived whole) with
    ⟨ns, yields, total⟩ | ⟨⟨failing, member, failed⟩, lost⟩
  · rw [List.forall₂_map_left_iff] at yields
    cases yields_of_trees values yields with
    | cons here others => exact .inl ⟨_, yields_foldlM_joinSegment others here, total⟩
  · refine .inr ⟨?_, lost⟩
    obtain ⟨tree, among, rfl⟩ := List.mem_map.mp member
    obtain ⟨piece, inside, same⟩ := exists_related (List.Forall₂.flip values) among
    -- A segment that fails for another reason is reached unless an earlier one fails.
    have stops := fails_of_unplaced ((unplaced_segmentAt s piece).trans same).symm failed
    cases started : segmentAt s first with
    | error e => exact ⟨e, rfl⟩
    | ok v =>
        rcases List.mem_cons.mp inside with rfl | inside
        · obtain ⟨e, stops⟩ := stops
          rw [started] at stops
          cases stops
        · exact foldlM_joinSegment_fails inside stops v

/-- For a phrase of the grammar over INTEGERs without `/`: if an expression has a value both cut at
its outer pluses and uncut, it is the same INTEGER, and if it has a value only one way, then the
other way overflows. -/
theorem evaluate_agrees_with_unsplit {s : Store} {t : Text} {tokens : List (Spanned Token)}
    (read : tokenize t = .ok tokens) (derivable : Derivable .sum (Token.symbols tokens))
    (whole : WholeNumbers s tokens) :
    (∀ v w, evaluate s t = .ok v → unsplit s t = .ok w → ∃ n, v = .integer n ∧ w = .integer n) ∧
      (∀ v e, evaluate s t = .ok v → unsplit s t = .error e → e.kind = .overflow) ∧
      (∀ w e, unsplit s t = .ok w → evaluate s t = .error e → e.kind = .overflow) := by
  rcases yields_or_fails read derivable whole with ⟨n, cut, uncut⟩ | ⟨⟨e, lost⟩, e', lost'⟩
  · refine ⟨fun v w made made' => ?_, fun v e _ failed => uncut.kind_eq failed,
      fun w e _ failed => cut.kind_eq failed⟩
    obtain ⟨i, rfl, value⟩ := cut.eq_integer made
    obtain ⟨j, rfl, value'⟩ := uncut.eq_integer made'
    exact ⟨i, rfl, by rw [Int64.toInt_inj.mp (value.trans value'.symm)]⟩
  · rw [lost, lost']
    refine ⟨?_, ?_, ?_⟩
    · rintro v w ⟨⟩
    · rintro v e ⟨⟩
    · rintro w e ⟨⟩

/-- `9223372036854775807 + 1 - 2`: the whole overflows, the segments `9223372036854775807` and
`1 - 2` do not. -/
theorem evaluate_agrees_with_unsplit_at_largest :
    evaluate {} "9223372036854775807 + 1 - 2".toList = .ok (.integer 9223372036854775806) ∧
      ∃ e, unsplit {} "9223372036854775807 + 1 - 2".toList = .error e ∧ e.kind = .overflow := by
  have read : tokenize "9223372036854775807 + 1 - 2".toList = .ok
      [⟨.number "9223372036854775807".toList, ⟨0, 19⟩⟩, ⟨.op .add, ⟨20, 21⟩⟩,
        ⟨.number ['1'], ⟨22, 23⟩⟩, ⟨.op .sub, ⟨24, 25⟩⟩, ⟨.number ['2'], ⟨26, 27⟩⟩] := by
    decide +kernel
  have whole : WholeNumbers {}
      [⟨.number "9223372036854775807".toList, ⟨0, 19⟩⟩, ⟨.op .add, ⟨20, 21⟩⟩,
        ⟨.number ['1'], ⟨22, 23⟩⟩, ⟨.op .sub, ⟨24, 25⟩⟩, ⟨.number ['2'], ⟨26, 27⟩⟩] := by
    refine ⟨?_, by decide⟩
    simp only [List.forall_mem_cons]
    refine ⟨fun _ => ⟨9223372036854775807, ?_⟩, by rintro ⟨⟩, fun _ => ⟨1, ?_⟩, by rintro ⟨⟩,
      fun _ => ⟨2, ?_⟩, List.forall_mem_nil _⟩
    all_goals decide +kernel
  have valued : evaluate {} "9223372036854775807 + 1 - 2".toList =
      .ok (.integer 9223372036854775806) := by decide +kernel
  have failed : unsplit {} "9223372036854775807 + 1 - 2".toList =
      .error ⟨.overflow (.operation .add), some ⟨0, 23⟩⟩ := by decide +kernel
  have agrees := evaluate_agrees_with_unsplit read ((derivable_iff_alternates rfl).mpr rfl) whole
  exact ⟨valued, _, failed, agrees.2.1 _ _ valued failed⟩

end Pseudocode.Expression
