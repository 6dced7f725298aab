import Llama.Scope.Table
import Llama.Proofs.TableRepresentation
import Mathlib.Data.List.Induction
import Mathlib.Data.Nat.Basic
import Mathlib.Order.Basic

/-!
# The history of a symbol table

What a symbol table holds can be told from the operations that led to it. An operation acts on the
scope that is innermost at its time, and matters as long as this scope is open. The levels say
which scope that is: a scope is the one at its level until fewer scopes are open.
-/

namespace Llama.Proofs

variable {more table : SymbolTable} {level : Nat} {scope : Scope} {symbol : Symbol}

/-- A change of a symbol table. -/
inductive ScopeOp where
  | openScope
  | closeScope
  | insert (symbol : Symbol)
  | setVisible (visible : Bool)
deriving DecidableEq, Repr

/-- Carries out an operation. A refused one changes nothing. -/
def perform (table : SymbolTable) : ScopeOp → SymbolTable
  | .openScope => table.openScope
  | .closeScope =>
    match table.closeScope? with
    | some (_, rest) => rest
    | none => table
  | .insert symbol =>
    match table.insert symbol with
    | .ok more => more
    | .error _ => table
  | .setVisible visible => table.setVisible visible

/-- The table after a history of operations. -/
def tableAfter (ops : List ScopeOp) : SymbolTable := ops.foldl perform SymbolTable.initial

/-- The level of the innermost scope after an operation. The library is at level 0 and stays. -/
def nextLevel (level : Nat) : ScopeOp → Nat
  | .openScope => level + 1
  | .closeScope => level - 1
  | _ => level

/-- The level of the innermost scope after a history. -/
def levelAfter (ops : List ScopeOp) : Nat := ops.foldl nextLevel 0

/-- The operation at place `i` of a history acts on the scope that is at the given level in the
end: the innermost scope is at this level before it, and that scope is not closed later. -/
structure ActsOn (ops : List ScopeOp) (level i : Nat) (op : ScopeOp) : Prop where
  performed : ops[i]? = some op
  innermost : levelAfter (ops.take i) = level
  stays : ∀ k, i ≤ k → k ≤ ops.length → level ≤ levelAfter (ops.take k)

/-- Every time the scope at a level was hidden, it was shown again. -/
def ShownAt (ops : List ScopeOp) (level : Nat) : Prop :=
  ∀ i, ActsOn ops level i (.setVisible false) → ∃ j, i < j ∧ ActsOn ops level j (.setVisible true)

/-- The operation at place `i` puts a symbol into the scope that ends up at the given level. -/
structure Inserts (ops : List ScopeOp) (level i : Nat) (symbol : Symbol) : Prop where
  actsOn : ActsOn ops level i (.insert symbol)
  succeeds : ∃ more, (tableAfter (ops.take i)).insert symbol = .ok more

/-- The symbol is the first of its name that was put into the scope at the given level; the library
is there from the start. -/
def FirstAt (ops : List ScopeOp) (level : Nat) (symbol : Symbol) : Prop :=
  level = 0 ∧ symbol ∈ Library.symbols ∨
    ∃ i, Inserts ops level i symbol ∧
      ∀ j < i, ∀ earlier, Inserts ops level j earlier → earlier.name ≠ symbol.name

lemma getElem?_snoc {α : Type} {l : List α} {a b : α} {i : Nat} :
    (l ++ [a])[i]? = some b ↔ l[i]? = some b ∨ i = l.length ∧ b = a := by
  rcases Nat.lt_trichotomy i l.length with hlt | rfl | hgt
  · rw [List.getElem?_append_left hlt]
    exact (or_iff_left fun h => hlt.ne h.1).symm
  · simp [eq_comm]
  · rw [List.getElem?_eq_none (by simp; omega), List.getElem?_eq_none hgt.le]
    simp [hgt.ne']

lemma tableAfter_snoc (ops : List ScopeOp) (op : ScopeOp) :
    tableAfter (ops ++ [op]) = perform (tableAfter ops) op := List.foldl_append

lemma levelAfter_snoc (ops : List ScopeOp) (op : ScopeOp) :
    levelAfter (ops ++ [op]) = nextLevel (levelAfter ops) op := List.foldl_append

section

variable {ops : List ScopeOp} {last op : ScopeOp} {level i j : Nat} {symbol : Symbol}

lemma ActsOn.lt (h : ActsOn ops level i op) : i < ops.length :=
  (List.getElem?_eq_some_iff.mp h.performed).1

lemma ActsOn.level_le (h : ActsOn ops level i op) : level ≤ levelAfter ops := by
  have hend := h.stays ops.length h.lt.le le_rfl
  rwa [List.take_length] at hend

/-- An operation acts on a scope in a longer history if it is the last one or did so before, as long
as the scope is open in the end. -/
lemma actsOn_snoc : ActsOn (ops ++ [last]) level i op ↔
    level ≤ levelAfter (ops ++ [last]) ∧
      (ActsOn ops level i op ∨ i = ops.length ∧ levelAfter ops = level ∧ op = last) := by
  have htake : ∀ k ≤ ops.length, (ops ++ [last]).take k = ops.take k := fun k hk =>
    List.take_append_of_le_length hk
  have hlength : (ops ++ [last]).length = ops.length + 1 := List.length_append
  constructor
  · intro h
    refine ⟨h.level_le, ?_⟩
    rcases getElem?_snoc.mp h.performed with hbefore | ⟨rfl, rfl⟩
    · have hi : i < ops.length := (List.getElem?_eq_some_iff.mp hbefore).1
      refine .inl ⟨hbefore, ?_, fun k hik hk => ?_⟩
      · rw [← htake i hi.le, h.innermost]
      · rw [← htake k hk]
        exact h.stays k hik (by omega)
    · refine .inr ⟨rfl, ?_, rfl⟩
      rw [← h.innermost, htake _ le_rfl, List.take_length]
  · rintro ⟨hlevel, hbefore | ⟨rfl, hinnermost, rfl⟩⟩
    · refine ⟨getElem?_snoc.mpr (.inl hbefore.performed), ?_, fun k hik hk => ?_⟩
      · rw [htake i hbefore.lt.le, hbefore.innermost]
      · rcases Nat.lt_or_ge ops.length k with hk' | hk'
        · rwa [List.take_of_length_le (by omega)]
        · rw [htake k hk']
          exact hbefore.stays k hik hk'
    · refine ⟨getElem?_snoc.mpr (.inr ⟨rfl, rfl⟩), ?_, fun k hik hk => ?_⟩
      · rw [htake _ le_rfl, List.take_length, hinnermost]
      · rcases Nat.lt_or_ge ops.length k with hk' | hk'
        · rwa [List.take_of_length_le (by omega)]
        · rw [htake k hk', List.take_of_length_le hik, hinnermost]

/-- What acts on a scope did so already when a later operation acted on it. -/
lemma ActsOn.take (h : ActsOn ops level j op) (hji : j < i) (hi : i ≤ ops.length) :
    ActsOn (ops.take i) level j op := by
  have hlength : (ops.take i).length = i := List.length_take_of_le hi
  have htake : ∀ k ≤ i, (ops.take i).take k = ops.take k := fun k hk => by
    rw [List.take_take, Nat.min_eq_left hk]
  refine ⟨?_, ?_, fun k hjk hk => ?_⟩
  · rw [List.getElem?_take_of_lt hji, h.performed]
  · rw [htake j hji.le, h.innermost]
  · rw [hlength] at hk
    rw [htake k hk]
    exact h.stays k hjk (hk.trans hi)

lemma Inserts.take (h : Inserts ops level j symbol) (hji : j < i) (hi : i ≤ ops.length) :
    Inserts (ops.take i) level j symbol := by
  refine ⟨h.actsOn.take hji hi, ?_⟩
  rw [List.take_take, Nat.min_eq_left hji.le]
  exact h.succeeds

/-- The last operation puts a symbol into the innermost scope if it inserts and succeeds. -/
lemma inserts_snoc (hlevel : level ≤ levelAfter (ops ++ [last])) :
    Inserts (ops ++ [last]) level i symbol ↔ Inserts ops level i symbol ∨
      i = ops.length ∧ levelAfter ops = level ∧ last = .insert symbol ∧
        ∃ more, (tableAfter ops).insert symbol = .ok more := by
  have htake : ∀ k ≤ ops.length, (ops ++ [last]).take k = ops.take k := fun k hk =>
    List.take_append_of_le_length hk
  constructor
  · rintro ⟨hacts, hsucceeds⟩
    rcases (actsOn_snoc.mp hacts).2 with hbefore | ⟨rfl, hinnermost, hlast⟩
    · rw [htake i hbefore.lt.le] at hsucceeds
      exact .inl ⟨hbefore, hsucceeds⟩
    · rw [htake _ le_rfl, List.take_length] at hsucceeds
      exact .inr ⟨rfl, hinnermost, hlast.symm, hsucceeds⟩
  · rintro (hbefore | ⟨rfl, hinnermost, hlast, hsucceeds⟩)
    · refine ⟨actsOn_snoc.mpr ⟨hlevel, .inl hbefore.actsOn⟩, ?_⟩
      rw [htake i hbefore.actsOn.lt.le]
      exact hbefore.succeeds
    · refine ⟨actsOn_snoc.mpr ⟨hlevel, .inr ⟨rfl, hinnermost, hlast.symm⟩⟩, ?_⟩
      rw [htake _ le_rfl, List.take_length]
      exact hsucceeds

end

/-- The open scopes by their levels, the library first. -/
def stack (table : SymbolTable) : List Scope := table.scopes.reverse

lemma stack_initial : stack SymbolTable.initial = [⟨Library.symbols, true, 0⟩] := rfl

lemma stack_openScope (table : SymbolTable) :
    stack table.openScope = stack table ++ [Scope.empty table.depth] := by
  simp [stack, SymbolTable.scopes, SymbolTable.openScope]

lemma length_stack (table : SymbolTable) : (stack table).length = table.depth := by
  simp [stack, SymbolTable.scopes, SymbolTable.depth]

/-- The innermost scope is on top, and changing it changes nothing else. -/
lemma exists_below (table : SymbolTable) :
    ∃ below, stack table = below ++ [table.current] ∧
      ∀ f, stack (table.modifyCurrent f) = below ++ [f table.current] := by
  obtain ⟨inner, library⟩ := table
  cases inner with
  | nil => exact ⟨[], rfl, fun f => rfl⟩
  | cons scope rest =>
    refine ⟨library :: rest.reverse, ?_, fun f => ?_⟩ <;>
      simp [stack, SymbolTable.scopes, SymbolTable.current, SymbolTable.modifyCurrent]

/-! ### What a history leaves behind -/

/-- The symbol is in the scope at the given level, in the library from the start or by an
insertion. -/
def PutAt (ops : List ScopeOp) (level : Nat) (symbol : Symbol) : Prop :=
  level = 0 ∧ symbol ∈ Library.symbols ∨ ∃ i, Inserts ops level i symbol

/-- The scope at the given level is as its history has it. -/
structure Tracks (ops : List ScopeOp) (level : Nat) (scope : Scope) : Prop where
  nesting : scope.nesting = level
  library : level = 0 → Library.symbols <+: scope.symbols
  visible : scope.visible = true ↔ ShownAt ops level
  distinct : (scope.symbols.map Symbol.name).Nodup
  symbols : ∀ symbol, symbol ∈ scope.symbols ↔ PutAt ops level symbol

section

variable {ops : List ScopeOp} {last : ScopeOp} {level : Nat} {scope : Scope} {symbol : Symbol}

/-- Whether a scope is shown does not change unless it is shown or hidden. -/
lemma shownAt_snoc (hlevel : level ≤ levelAfter (ops ++ [last]))
    (hlast : ∀ visible, last = .setVisible visible → levelAfter ops ≠ level) :
    ShownAt (ops ++ [last]) level ↔ ShownAt ops level := by
  have hacts : ∀ i visible, ActsOn (ops ++ [last]) level i (.setVisible visible) ↔
      ActsOn ops level i (.setVisible visible) := by
    intro i visible
    rw [actsOn_snoc]
    constructor
    · rintro ⟨-, hbefore | ⟨-, hinnermost, hop⟩⟩
      · exact hbefore
      · exact (hlast visible hop.symm hinnermost).elim
    · exact fun hbefore => ⟨hlevel, .inl hbefore⟩
  simp only [ShownAt, hacts]

/-- What is in a scope does not change unless something is put into it. -/
lemma putAt_snoc (hlevel : level ≤ levelAfter (ops ++ [last]))
    (hlast : ∀ symbol more, last = .insert symbol → levelAfter ops = level →
      (tableAfter ops).insert symbol ≠ .ok more) :
    PutAt (ops ++ [last]) level symbol ↔ PutAt ops level symbol := by
  have hinserts : ∀ i, Inserts (ops ++ [last]) level i symbol ↔ Inserts ops level i symbol := by
    intro i
    rw [inserts_snoc hlevel]
    refine ⟨?_, .inl⟩
    rintro (hbefore | ⟨-, hinnermost, hop, more, hok⟩)
    · exact hbefore
    · exact (hlast symbol more hop hinnermost hok).elim
  simp only [PutAt, hinserts]

/-- An operation leaves a scope alone that stays open and is not innermost, and so do opening and
closing scopes. -/
lemma Tracks.snoc (h : Tracks ops level scope) (hlevel : level ≤ levelAfter (ops ++ [last]))
    (hlast : levelAfter ops = level → last = .openScope ∨ last = .closeScope) :
    Tracks (ops ++ [last]) level scope where
  nesting := h.nesting
  library := h.library
  visible := by
    refine h.visible.trans (shownAt_snoc hlevel fun visible hop hinnermost => ?_).symm
    rcases hlast hinnermost with hlast | hlast <;> cases hop.symm.trans hlast
  distinct := h.distinct
  symbols symbol := by
    refine (h.symbols symbol).trans (putAt_snoc hlevel fun symbol more hop hinnermost => ?_).symm
    rcases hlast hinnermost with hlast | hlast <;> cases hop.symm.trans hlast

/-- A scope that was just opened has no history. -/
lemma tracks_empty (ops : List ScopeOp) :
    Tracks (ops ++ [.openScope]) (levelAfter ops + 1) (Scope.empty (levelAfter ops + 1)) := by
  have hnone : ∀ i op, ¬ActsOn (ops ++ [.openScope]) (levelAfter ops + 1) i op := by
    intro i op h
    rcases (actsOn_snoc.mp h).2 with hbefore | ⟨-, hinnermost, -⟩
    · exact absurd hbefore.level_le (by omega)
    · omega
  refine ⟨rfl, fun hzero => (Nat.succ_ne_zero _ hzero).elim,
    iff_of_true rfl fun i h => (hnone i _ h).elim, List.nodup_nil, fun symbol => ?_⟩
  refine iff_of_false List.not_mem_nil ?_
  rintro (⟨hzero, -⟩ | ⟨i, hinserts⟩)
  · cases hzero
  · exact hnone i _ hinserts.actsOn

/-- A symbol that is put into the innermost scope comes after the others. -/
lemma Tracks.add (h : Tracks ops (levelAfter ops) scope)
    (hok : (tableAfter ops).insert symbol = .ok more)
    (hnew : symbol.name ∉ scope.symbols.map Symbol.name) :
    Tracks (ops ++ [.insert symbol]) (levelAfter ops) (scope.add symbol) := by
  have hlevel : levelAfter ops ≤ levelAfter (ops ++ [.insert symbol]) := by
    rw [levelAfter_snoc]
    rfl
  refine ⟨h.nesting, fun hzero => (h.library hzero).trans (List.prefix_append _ _), ?_, ?_,
    fun other => ?_⟩
  · exact h.visible.trans (shownAt_snoc hlevel fun visible hop => by cases hop).symm
  · simpa [Scope.add, List.nodup_append, h.distinct] using fun other hother heq =>
      hnew (List.mem_map.mpr ⟨other, hother, heq⟩)
  · have hmem : other ∈ (scope.add symbol).symbols ↔ other ∈ scope.symbols ∨ other = symbol := by
      simp [Scope.add]
    rw [hmem, h.symbols]
    unfold PutAt
    simp only [inserts_snoc hlevel]
    constructor
    · rintro ((hlibrary | ⟨i, hi⟩) | rfl)
      · exact .inl hlibrary
      · exact .inr ⟨i, .inl hi⟩
      · exact .inr ⟨ops.length, .inr ⟨rfl, trivial, rfl, more, hok⟩⟩
    · rintro (hlibrary | ⟨i, hi | ⟨-, -, hop, -⟩⟩)
      · exact .inl (.inl hlibrary)
      · exact .inl (.inr ⟨i, hi⟩)
      · cases hop
        exact .inr rfl

lemma Tracks.setVisible (h : Tracks ops (levelAfter ops) scope) (visible : Bool) :
    Tracks (ops ++ [.setVisible visible]) (levelAfter ops) { scope with visible } := by
  have hlevel : levelAfter ops ≤ levelAfter (ops ++ [.setVisible visible]) := by
    rw [levelAfter_snoc]
    rfl
  have hlast : ActsOn (ops ++ [.setVisible visible]) (levelAfter ops) ops.length
      (.setVisible visible) := actsOn_snoc.mpr ⟨hlevel, .inr ⟨rfl, rfl, rfl⟩⟩
  refine ⟨h.nesting, h.library, ?_, h.distinct, fun symbol => ?_⟩
  · cases visible with
    | true =>
      refine iff_of_true rfl fun i hi => ?_
      rcases (actsOn_snoc.mp hi).2 with hbefore | ⟨-, -, hop⟩
      · exact ⟨ops.length, hbefore.lt, hlast⟩
      · cases hop
    | false =>
      refine iff_of_false Bool.false_ne_true fun hshown => ?_
      obtain ⟨j, hj, hacts⟩ := hshown ops.length hlast
      rcases (actsOn_snoc.mp hacts).2 with hbefore | ⟨-, -, hop⟩
      · exact absurd hbefore.lt hj.not_gt
      · cases hop
  · exact (h.symbols symbol).trans (putAt_snoc hlevel fun symbol more hop => by cases hop).symm

/-- A refused insertion changes nothing. -/
lemma Tracks.refuse (h : Tracks ops level scope) (hlevel : level ≤ levelAfter ops)
    {e : DuplicateName} (herror : (tableAfter ops).insert symbol = .error e) :
    Tracks (ops ++ [.insert symbol]) level scope := by
  have hlevel' : level ≤ levelAfter (ops ++ [.insert symbol]) := by
    rw [levelAfter_snoc]
    exact hlevel
  refine ⟨h.nesting, h.library, ?_, h.distinct, fun other => ?_⟩
  · exact h.visible.trans (shownAt_snoc hlevel' fun visible hop => by cases hop).symm
  · refine (h.symbols other).trans (putAt_snoc hlevel' fun symbol' more hop _ hok => ?_).symm
    cases hop
    cases herror.symm.trans hok

end

/-- Each open scope is as its history has it. -/
structure Follows (ops : List ScopeOp) (table : SymbolTable) : Prop where
  depth : table.depth = levelAfter ops + 1
  tracks : ∀ level scope, (stack table)[level]? = some scope → Tracks ops level scope

namespace Follows

variable {ops : List ScopeOp} {table : SymbolTable}

lemma level_le (h : Follows ops table) (hscope : (stack table)[level]? = some scope) :
    level ≤ levelAfter ops := by
  have hlt := (List.getElem?_eq_some_iff.mp hscope).1
  rw [length_stack, h.depth] at hlt
  omega

lemma exists_scope (h : Follows ops table) (hlevel : level ≤ levelAfter ops) :
    ∃ scope, (stack table)[level]? = some scope := by
  have hlt : level < (stack table).length := by
    rw [length_stack, h.depth]
    omega
  exact ⟨_, List.getElem?_eq_getElem hlt⟩

/-- The innermost scope is on top of the scopes at lower levels. -/
lemma exists_lower (h : Follows ops table) :
    ∃ below : List Scope, below.length = levelAfter ops ∧ stack table = below ++ [table.current] ∧
      ∀ f, stack (table.modifyCurrent f) = below ++ [f table.current] := by
  obtain ⟨below, hstack, hmodified⟩ := exists_below table
  have hlength := length_stack table
  rw [hstack, h.depth, List.length_append, List.length_singleton] at hlength
  exact ⟨below, Nat.succ.inj hlength, hstack, hmodified⟩

lemma stack_current (h : Follows ops table) :
    (stack table)[levelAfter ops]? = some table.current := by
  obtain ⟨below, hlength, hstack, -⟩ := h.exists_lower
  rw [hstack]
  exact getElem?_snoc.mpr (.inr ⟨hlength.symm, rfl⟩)

lemma current (h : Follows ops table) : Tracks ops (levelAfter ops) table.current :=
  h.tracks _ _ h.stack_current

/-- What changes the innermost scope as its history has it leaves the others as they are. -/
lemma modifyCurrent (h : Follows ops table) (last : ScopeOp) (f : Scope → Scope)
    (hlast : levelAfter (ops ++ [last]) = levelAfter ops)
    (hf : Tracks (ops ++ [last]) (levelAfter ops) (f table.current)) :
    Follows (ops ++ [last]) (table.modifyCurrent f) := by
  obtain ⟨below, hlength, hstack, hmodified⟩ := h.exists_lower
  refine ⟨?_, fun level scope hscope => ?_⟩
  · rw [← length_stack, hmodified, List.length_append, List.length_singleton, hlength, hlast]
  · rw [hmodified] at hscope
    rcases getElem?_snoc.mp hscope with hbelow | ⟨rfl, rfl⟩
    · have hlt : level < below.length := (List.getElem?_eq_some_iff.mp hbelow).1
      have htracks : Tracks ops level scope := by
        refine h.tracks level scope ?_
        rw [hstack]
        exact getElem?_snoc.mpr (.inl hbelow)
      refine htracks.snoc ?_ fun hinnermost => ?_ <;> omega
    · rw [hlength]
      exact hf

end Follows

lemma follows_initial : Follows [] SymbolTable.initial := by
  have hnone : ∀ level i op, ¬ActsOn [] level i op := fun level i op h => absurd h.lt (by simp)
  refine ⟨rfl, fun level scope hscope => ?_⟩
  rw [stack_initial, List.getElem?_singleton] at hscope
  split at hscope
  · next hzero =>
    cases hscope
    subst hzero
    refine ⟨rfl, fun _ => List.prefix_refl _, iff_of_true rfl fun i h => (hnone _ _ _ h).elim,
      by decide, fun symbol => ?_⟩
    refine ⟨fun hmem => .inl ⟨rfl, hmem⟩, ?_⟩
    rintro (⟨-, hmem⟩ | ⟨i, hinserts⟩)
    · exact hmem
    · exact (hnone _ _ _ hinserts.actsOn).elim
  · cases hscope

lemma stack_of_closeScope? {rest : SymbolTable} (h : table.closeScope? = some (scope, rest)) :
    stack table = stack rest ++ [scope] := by
  obtain ⟨inner, library⟩ := table
  cases inner with
  | nil => cases h
  | cons first inner =>
    cases h
    simp [stack, SymbolTable.scopes]

lemma depth_of_closeScope?_eq_none (h : table.closeScope? = none) : table.depth = 1 := by
  obtain ⟨inner, library⟩ := table
  cases inner with
  | nil => rfl
  | cons first inner => cases h

lemma follows_openScope {ops : List ScopeOp} (h : Follows ops table) :
    Follows (ops ++ [.openScope]) table.openScope := by
  have hlevel : levelAfter (ops ++ [.openScope]) = levelAfter ops + 1 := levelAfter_snoc ops _
  refine ⟨?_, fun level scope hscope => ?_⟩
  · rw [← length_stack, stack_openScope, List.length_append, length_stack, h.depth, hlevel]
    rfl
  · rw [stack_openScope] at hscope
    rcases getElem?_snoc.mp hscope with hbelow | ⟨rfl, rfl⟩
    · refine (h.tracks level scope hbelow).snoc ?_ fun _ => .inl rfl
      have hle := h.level_le hbelow
      omega
    · rw [length_stack, h.depth]
      exact tracks_empty ops

lemma follows_closeScope {ops : List ScopeOp} (h : Follows ops table) :
    Follows (ops ++ [.closeScope]) (perform table .closeScope) := by
  have hlevel : levelAfter (ops ++ [.closeScope]) = levelAfter ops - 1 := levelAfter_snoc ops _
  unfold perform
  cases hclose : table.closeScope? with
  | none =>
    have hdepth := depth_of_closeScope?_eq_none hclose
    rw [h.depth] at hdepth
    refine ⟨by simp only [h.depth]; omega, fun level scope hscope => ?_⟩
    refine (h.tracks level scope hscope).snoc ?_ fun _ => .inr rfl
    have hle := h.level_le hscope
    omega
  | some closed =>
    obtain ⟨scope, rest⟩ := closed
    have hstack := stack_of_closeScope? hclose
    have hdepth : rest.depth = levelAfter ops := by
      have hlength := length_stack table
      rw [hstack, h.depth, List.length_append, length_stack] at hlength
      exact Nat.succ.inj hlength
    have hpositive : 0 < rest.depth := Nat.succ_pos _
    refine ⟨by simp only; omega, fun level scope' hscope => ?_⟩
    have hlt : level < (stack rest).length := (List.getElem?_eq_some_iff.mp hscope).1
    have htracks : Tracks ops level scope' := by
      refine h.tracks level scope' ?_
      rw [hstack]
      exact getElem?_snoc.mpr (.inl hscope)
    rw [length_stack] at hlt
    exact htracks.snoc (by omega) fun _ => .inr rfl

lemma get?_eq_none_iff {name : String} :
    scope.get? name = none ↔ name ∉ scope.symbols.map Symbol.name := by
  simp [Scope.get?]

/-- An insertion succeeds if the name is new to the innermost scope. -/
lemma insert_eq_ok (h : table.insert symbol = .ok more) :
    symbol.name ∉ table.current.symbols.map Symbol.name ∧
      more = table.modifyCurrent fun scope => scope.add symbol := by
  unfold SymbolTable.insert at h
  cases hget : table.current.get? symbol.name with
  | some previous =>
    rw [hget] at h
    cases h
  | none =>
    rw [hget] at h
    cases h
    exact ⟨get?_eq_none_iff.mp hget, rfl⟩

lemma perform_insert_ok (h : table.insert symbol = .ok more) :
    perform table (.insert symbol) = more := by
  rw [perform, h]

lemma perform_insert_error {e : DuplicateName} (h : table.insert symbol = .error e) :
    perform table (.insert symbol) = table := by
  rw [perform, h]

/-- Whatever operations are carried out, each open scope is as its history has it. -/
lemma follows_tableAfter (ops : List ScopeOp) : Follows ops (tableAfter ops) := by
  induction ops using List.reverseRecOn with
  | nil => exact follows_initial
  | append_singleton ops last ih =>
    rw [tableAfter_snoc]
    cases last with
    | openScope => exact follows_openScope ih
    | closeScope => exact follows_closeScope ih
    | insert symbol =>
      have hlevel : levelAfter (ops ++ [.insert symbol]) = levelAfter ops := levelAfter_snoc ops _
      cases hinsert : (tableAfter ops).insert symbol with
      | ok more =>
        obtain ⟨hnew, rfl⟩ := insert_eq_ok hinsert
        rw [perform_insert_ok hinsert]
        exact ih.modifyCurrent _ (fun scope => scope.add symbol) hlevel
          (ih.current.add hinsert hnew)
      | error e =>
        rw [perform_insert_error hinsert]
        refine ⟨by rw [ih.depth, hlevel], fun level scope hscope => ?_⟩
        exact (ih.tracks level scope hscope).refuse (ih.level_le hscope) hinsert
    | setVisible visible =>
      exact ih.modifyCurrent _ (fun scope => { scope with visible }) (levelAfter_snoc ops _)
        (ih.current.setVisible visible)

/-- What was put into a scope was the first of its name there. -/
lemma putAt_iff_firstAt {ops : List ScopeOp} :
    PutAt ops level symbol ↔ FirstAt ops level symbol := by
  refine or_congr_right ⟨?_, fun ⟨i, hinserts, _⟩ => ⟨i, hinserts⟩⟩
  rintro ⟨i, hinserts⟩
  refine ⟨i, hinserts, fun j hj earlier hearlier hname => ?_⟩
  -- When the symbol was put there, the earlier one was in the scope already.
  have hlevel := hinserts.actsOn.innermost
  have hcurrent := (follows_tableAfter (ops.take i)).current
  rw [hlevel] at hcurrent
  have hmem : earlier ∈ (tableAfter (ops.take i)).current.symbols :=
    (hcurrent.symbols earlier).mpr (.inr ⟨j, hearlier.take hj hinserts.actsOn.lt.le⟩)
  obtain ⟨more, hok⟩ := hinserts.succeeds
  exact (insert_eq_ok hok).1 (hname ▸ List.mem_map_of_mem hmem)

lemma Tracks.get?_eq_some_iff {ops : List ScopeOp} (h : Tracks ops level scope) {name : String} :
    scope.get? name = some symbol ↔ FirstAt ops level symbol ∧ symbol.name = name := by
  rw [Scope.get?, find?_eq_some_iff_of_nodup h.distinct, h.symbols, putAt_iff_firstAt]

/-- An insertion is refused exactly if the innermost scope has a symbol of the name, hidden or
not. -/
lemma insert_eq_error_iff (ops : List ScopeOp) (symbol : Symbol) (e : DuplicateName) :
    (tableAfter ops).insert symbol = .error e ↔
      ∃ previous, FirstAt ops (levelAfter ops) previous ∧ previous.name = symbol.name ∧
        e = ⟨symbol.name, symbol.span, previous.span⟩ := by
  have hcurrent := (follows_tableAfter ops).current
  unfold SymbolTable.insert
  cases hget : (tableAfter ops).current.get? symbol.name with
  | none =>
    refine iff_of_false (by rintro ⟨⟩) ?_
    rintro ⟨previous, hfirst, hname, -⟩
    rw [hcurrent.get?_eq_some_iff.mpr ⟨hfirst, hname⟩] at hget
    cases hget
  | some previous =>
    constructor
    · rintro ⟨⟩
      obtain ⟨hfirst, hname⟩ := hcurrent.get?_eq_some_iff.mp hget
      exact ⟨previous, hfirst, hname, rfl⟩
    · rintro ⟨previous', hfirst, hname, rfl⟩
      cases hget.symm.trans (hcurrent.get?_eq_some_iff.mpr ⟨hfirst, hname⟩)
      rfl

/-- The last one that has an answer gives it. -/
lemma findSome?_reverse_eq_some_iff {α β : Type} {f : α → Option β} {l : List α} {b : β} :
    l.reverse.findSome? f = some b ↔ ∃ (i : Nat) (a : α), l[i]? = some a ∧ f a = some b ∧
      ∀ j > i, ∀ a', l[j]? = some a' → f a' = none := by
  induction l using List.reverseRecOn with
  | nil => simp
  | append_singleton l last ih =>
    rw [List.reverse_append, List.reverse_singleton, List.singleton_append, List.findSome?_cons]
    cases hlast : f last with
    | some b' =>
      constructor
      · rintro ⟨⟩
        refine ⟨l.length, last, getElem?_snoc.mpr (.inr ⟨rfl, rfl⟩), hlast, fun j hj a' ha' => ?_⟩
        rcases getElem?_snoc.mp ha' with hbefore | ⟨rfl, -⟩
        · exact absurd (List.getElem?_eq_some_iff.mp hbefore).1 hj.not_gt
        · exact absurd hj (lt_irrefl _)
      · rintro ⟨i, a, hi, ha, hlater⟩
        rcases getElem?_snoc.mp hi with hbefore | ⟨-, rfl⟩
        · have hnone := hlater l.length (List.getElem?_eq_some_iff.mp hbefore).1 last
            (getElem?_snoc.mpr (.inr ⟨rfl, rfl⟩))
          cases hlast.symm.trans hnone
        · exact hlast.symm.trans ha
    | none =>
      rw [ih]
      constructor
      · rintro ⟨i, a, hi, ha, hlater⟩
        refine ⟨i, a, getElem?_snoc.mpr (.inl hi), ha, fun j hj a' ha' => ?_⟩
        rcases getElem?_snoc.mp ha' with hbefore | ⟨-, rfl⟩
        · exact hlater j hj a' hbefore
        · exact hlast
      · rintro ⟨i, a, hi, ha, hlater⟩
        rcases getElem?_snoc.mp hi with hbefore | ⟨-, rfl⟩
        · exact ⟨i, a, hbefore, ha, fun j hj a' ha' =>
            hlater j hj a' (getElem?_snoc.mpr (.inl ha'))⟩
        · cases hlast.symm.trans ha

/-- The symbol is the first of its name in the innermost shown open scope that has one. -/
def Seen (ops : List ScopeOp) (name : String) (symbol : Symbol) : Prop :=
  ∃ level ≤ levelAfter ops, ShownAt ops level ∧ FirstAt ops level symbol ∧ symbol.name = name ∧
    ∀ higher, level < higher → higher ≤ levelAfter ops → ShownAt ops higher →
      ∀ other, FirstAt ops higher other → other.name ≠ name

lemma lookup?_eq_some_iff (ops : List ScopeOp) (name : String) (symbol : Symbol) :
    (tableAfter ops).lookup? name = some symbol ↔ Seen ops name symbol := by
  have hfollows := follows_tableAfter ops
  have hscopes : (tableAfter ops).scopes = (stack (tableAfter ops)).reverse :=
    (List.reverse_reverse _).symm
  rw [SymbolTable.lookup?, hscopes, ← List.head?_filterMap, List.filterMap_filter,
    List.head?_filterMap, findSome?_reverse_eq_some_iff]
  simp only [Option.ite_none_right_eq_some]
  constructor
  · rintro ⟨level, scope, hscope, ⟨hvisible, hget⟩, hhigher⟩
    have htracks := hfollows.tracks level scope hscope
    obtain ⟨hfirst, hname⟩ := htracks.get?_eq_some_iff.mp hget
    refine ⟨level, hfollows.level_le hscope, htracks.visible.mp hvisible, hfirst, hname, ?_⟩
    intro higher hlt hle hshown other hother hsame
    obtain ⟨scope', hscope'⟩ := hfollows.exists_scope hle
    have htracks' := hfollows.tracks higher scope' hscope'
    have hnone := hhigher higher hlt scope' hscope'
    rw [if_pos (htracks'.visible.mpr hshown),
      htracks'.get?_eq_some_iff.mpr ⟨hother, hsame⟩] at hnone
    cases hnone
  · rintro ⟨level, hle, hshown, hfirst, hname, hhigher⟩
    obtain ⟨scope, hscope⟩ := hfollows.exists_scope hle
    have htracks := hfollows.tracks level scope hscope
    refine ⟨level, scope, hscope, ⟨htracks.visible.mpr hshown,
      htracks.get?_eq_some_iff.mpr ⟨hfirst, hname⟩⟩, fun higher hlt scope' hscope' => ?_⟩
    have htracks' := hfollows.tracks higher scope' hscope'
    split
    · next hvisible =>
      refine Option.eq_none_iff_forall_ne_some.mpr fun other hother => ?_
      obtain ⟨hother, hsame⟩ := htracks'.get?_eq_some_iff.mp hother
      exact hhigher higher hlt (hfollows.level_le hscope') (htracks'.visible.mp hvisible) other
        hother hsame
    · rfl

example : (tableAfter [.openScope, .insert ⟨"abs", .var, none, none, .origin⟩,
    .setVisible false]).lookup? "abs" = SymbolTable.initial.lookup? "abs" := by decide

end Llama.Proofs
