import Llama.Proofs.ScopeHistory
import Mathlib.Data.List.ModifyLast
import Mathlib.Data.List.Nodup

/-!
# Scopes with an index

A scope may keep an index of the places of its symbols by name, so that a name is found without a
search. A stack of such scopes goes through the same states as a symbol table and gives the same
answers, because no insertion is accepted that would make the index lose a symbol.
-/

namespace Llama.Proofs

/-- A scope in which symbols are found through an index. -/
structure IndexedScope where
  symbols : List Symbol
  /-- The places of the symbols by name. -/
  index : Std.HashMap String Nat
  visible : Bool
  nesting : Nat

namespace IndexedScope

def empty (nesting : Nat) : IndexedScope := ⟨[], ∅, true, nesting⟩

def get? (scope : IndexedScope) (name : String) : Option Symbol :=
  scope.index[name]?.bind fun i => scope.symbols[i]?

def add (scope : IndexedScope) (symbol : Symbol) : IndexedScope :=
  { scope with
    symbols := scope.symbols ++ [symbol]
    index := scope.index.insert symbol.name scope.symbols.length }

/-- The scope without its index. -/
def plain (scope : IndexedScope) : Scope := ⟨scope.symbols, scope.visible, scope.nesting⟩

end IndexedScope

/-- The index and the list of symbols describe the same map, and no name comes twice. -/
structure Consistent (scope : IndexedScope) : Prop where
  distinct : (scope.symbols.map Symbol.name).Nodup
  places : ∀ (name : String) (i : Nat), scope.index[name]? = some i ↔
    ∃ symbol : Symbol, scope.symbols[i]? = some symbol ∧ symbol.name = name

namespace Consistent

variable {scope : IndexedScope}

lemma empty (nesting : Nat) : Consistent (IndexedScope.empty nesting) where
  distinct := List.nodup_nil
  places name i := by simp [IndexedScope.empty]

/-- What is found through the index is what a search would find. -/
lemma get?_eq (h : Consistent scope) (name : String) :
    scope.get? name = scope.plain.get? name := by
  refine Option.ext fun symbol => ?_
  rw [Scope.get?, IndexedScope.plain, find?_eq_some_iff_of_nodup h.distinct,
    List.mem_iff_getElem?, IndexedScope.get?, Option.bind_eq_some_iff]
  constructor
  · rintro ⟨i, hi, hsymbol⟩
    obtain ⟨symbol', hsymbol', hname⟩ := (h.places name i).mp hi
    cases hsymbol.symm.trans hsymbol'
    exact ⟨⟨i, hsymbol⟩, hname⟩
  · rintro ⟨⟨i, hsymbol⟩, hname⟩
    exact ⟨i, (h.places name i).mpr ⟨symbol, hsymbol, hname⟩, hsymbol⟩

lemma add (h : Consistent scope) {symbol : Symbol}
    (hnew : symbol.name ∉ scope.symbols.map Symbol.name) : Consistent (scope.add symbol) where
  distinct := by
    rw [IndexedScope.add, List.map_append]
    refine List.nodup_append.mpr ⟨h.distinct, List.nodup_singleton _, fun n hn n' hn' heq => ?_⟩
    rw [heq, List.mem_singleton.mp hn'] at hn
    exact hnew hn
  places name i := by
    simp only [IndexedScope.add, Std.HashMap.getElem?_insert, getElem?_snoc]
    by_cases hname : symbol.name = name
    · rw [if_pos (by simpa using hname), Option.some.injEq]
      constructor
      · rintro rfl
        exact ⟨symbol, .inr ⟨rfl, rfl⟩, hname⟩
      · rintro ⟨other, hother | ⟨rfl, -⟩, hname'⟩
        · refine (hnew ?_).elim
          rw [hname, ← hname']
          exact List.mem_map_of_mem (List.mem_of_getElem? hother)
        · rfl
    · rw [if_neg (by simpa using hname), h.places]
      constructor
      · rintro ⟨other, hother, hname'⟩
        exact ⟨other, .inl hother, hname'⟩
      · rintro ⟨other, hother | ⟨-, rfl⟩, hname'⟩
        · exact ⟨other, hother, hname'⟩
        · exact (hname hname').elim

lemma setVisible (h : Consistent scope) (visible : Bool) : Consistent { scope with visible } :=
  ⟨h.distinct, h.places⟩

/-- Symbols that are added one after the other, all with names of their own. -/
lemma foldl_add (h : Consistent scope) (symbols : List Symbol)
    (hnew : ((scope.symbols ++ symbols).map Symbol.name).Nodup) :
    Consistent (symbols.foldl IndexedScope.add scope) ∧
      (symbols.foldl IndexedScope.add scope).plain =
        ⟨scope.symbols ++ symbols, scope.visible, scope.nesting⟩ := by
  induction symbols generalizing scope with
  | nil => exact ⟨h, by simp [IndexedScope.plain]⟩
  | cons symbol symbols ih =>
    have happend : scope.symbols ++ symbol :: symbols = (scope.add symbol).symbols ++ symbols := by
      simp [IndexedScope.add]
    have hfirst : symbol.name ∉ scope.symbols.map Symbol.name := by
      intro hmem
      rw [List.map_append, List.map_cons] at hnew
      exact (List.nodup_append.mp hnew).2.2 _ hmem _ List.mem_cons_self rfl
    rw [happend] at hnew ⊢
    exact ih (h.add hfirst) hnew

end Consistent

/-- A stack of scopes with indices, the outermost first. -/
structure IndexedTable where
  scopes : List IndexedScope

namespace IndexedTable

def initial : IndexedTable := ⟨[Library.symbols.foldl IndexedScope.add (IndexedScope.empty 0)]⟩

def modifyCurrent (table : IndexedTable) (f : IndexedScope → IndexedScope) : IndexedTable :=
  ⟨table.scopes.modifyLast f⟩

def openScope (table : IndexedTable) : IndexedTable :=
  ⟨table.scopes ++ [IndexedScope.empty table.scopes.length]⟩

/-- Closes the innermost scope unless it is the only one. -/
def closeScope (table : IndexedTable) : IndexedTable :=
  if table.scopes.length ≤ 1 then table else ⟨table.scopes.dropLast⟩

def insert (table : IndexedTable) (symbol : Symbol) : Except DuplicateName IndexedTable :=
  match table.scopes.getLast?.bind fun scope => scope.get? symbol.name with
  | some previous => .error ⟨symbol.name, symbol.span, previous.span⟩
  | none => .ok (table.modifyCurrent fun scope => scope.add symbol)

def lookup? (table : IndexedTable) (name : String) : Option Symbol :=
  (table.scopes.reverse.filter IndexedScope.visible).findSome? fun scope => scope.get? name

def perform (table : IndexedTable) : ScopeOp → IndexedTable
  | .openScope => table.openScope
  | .closeScope => table.closeScope
  | .insert symbol =>
    match table.insert symbol with
    | .ok more => more
    | .error _ => table
  | .setVisible visible => table.modifyCurrent fun scope => { scope with visible }

end IndexedTable

/-- The stack of scopes with indices after a history of operations. -/
def indexedAfter (ops : List ScopeOp) : IndexedTable :=
  ops.foldl IndexedTable.perform IndexedTable.initial

lemma indexedAfter_snoc (ops : List ScopeOp) (op : ScopeOp) :
    indexedAfter (ops ++ [op]) = (indexedAfter ops).perform op := List.foldl_append

/-- The scopes are those of the symbol table, each with an index that describes it. -/
structure Mirrors (indexed : IndexedTable) (table : SymbolTable) : Prop where
  scopes : indexed.scopes.map IndexedScope.plain = stack table
  consistent : ∀ scope ∈ indexed.scopes, Consistent scope

namespace Mirrors

variable {indexed : IndexedTable} {table : SymbolTable}

lemma length_scopes (h : Mirrors indexed table) : indexed.scopes.length = table.depth := by
  rw [← length_stack, ← h.scopes, List.length_map]

/-- The innermost scopes correspond, and can be changed in the same way. -/
lemma exists_current (h : Mirrors indexed table) :
    ∃ below current, indexed.scopes = below ++ [current] ∧ current.plain = table.current ∧
      ∀ f g, (f current).plain = g table.current → Consistent (f current) →
        Mirrors (indexed.modifyCurrent f) (table.modifyCurrent g) := by
  obtain ⟨below, hstack, hmodified⟩ := exists_below table
  have hscopes := h.scopes
  rw [hstack] at hscopes
  obtain ⟨below', top, hsplit, hbelow, htop⟩ := List.map_eq_append_iff.mp hscopes
  obtain ⟨current, rfl, hcurrent⟩ := List.map_eq_singleton_iff.mp htop
  refine ⟨below', current, hsplit, hcurrent, fun f g hplain hconsistent => ?_⟩
  have hchanged : (indexed.modifyCurrent f).scopes = below' ++ [f current] := by
    rw [IndexedTable.modifyCurrent, hsplit, List.modifyLast_concat]
  refine ⟨?_, ?_⟩
  · rw [hchanged, hmodified, List.map_append, hbelow, List.map_singleton, hplain]
  · rw [hchanged]
    refine List.forall_mem_append.mpr ⟨fun scope hscope => ?_, by simpa using hconsistent⟩
    exact h.consistent scope (hsplit ▸ List.mem_append_left _ hscope)

/-- An insertion is accepted by both or refused by both with the same error. -/
lemma insert (h : Mirrors indexed table) (symbol : Symbol) :
    (∃ e, indexed.insert symbol = .error e ∧ table.insert symbol = .error e) ∨
      ∃ indexed' table', indexed.insert symbol = .ok indexed' ∧ table.insert symbol = .ok table' ∧
        Mirrors indexed' table' := by
  obtain ⟨below, current, hsplit, hcurrent, hmodify⟩ := h.exists_current
  have hconsistent : Consistent current := h.consistent current (by simp [hsplit])
  have hget : (indexed.scopes.getLast?.bind fun scope => scope.get? symbol.name) =
      table.current.get? symbol.name := by
    rw [hsplit, List.getLast?_concat, ← hcurrent]
    exact hconsistent.get?_eq symbol.name
  unfold IndexedTable.insert SymbolTable.insert
  rw [hget]
  cases hfound : table.current.get? symbol.name with
  | some previous => exact .inl ⟨_, rfl, rfl⟩
  | none =>
    refine .inr ⟨_, _, rfl, rfl, hmodify _ _ ?_ (hconsistent.add ?_)⟩
    · rw [← hcurrent]
      rfl
    · rw [← hcurrent] at hfound
      exact get?_eq_none_iff.mp hfound

lemma insert_eq_error_iff (h : Mirrors indexed table) (symbol : Symbol) (e : DuplicateName) :
    indexed.insert symbol = .error e ↔ table.insert symbol = .error e := by
  rcases h.insert symbol with ⟨e', hindexed, htable⟩ | ⟨indexed', table', hindexed, htable, -⟩
  · rw [hindexed, htable, Except.error.injEq, Except.error.injEq]
  · rw [hindexed, htable]
    exact iff_of_false (by rintro ⟨⟩) (by rintro ⟨⟩)

lemma lookup? (h : Mirrors indexed table) (name : String) :
    indexed.lookup? name = table.lookup? name := by
  have hscopes : table.scopes = indexed.scopes.reverse.map IndexedScope.plain := by
    rw [List.map_reverse, h.scopes]
    exact (List.reverse_reverse _).symm
  rw [IndexedTable.lookup?, SymbolTable.lookup?, hscopes, List.filter_map, List.findSome?_map,
    ← List.head?_filterMap, ← List.head?_filterMap]
  refine congrArg List.head? (List.filterMap_congr fun scope hscope => ?_)
  have hmem : scope ∈ indexed.scopes := List.mem_reverse.mp (List.mem_of_mem_filter hscope)
  exact (h.consistent scope hmem).get?_eq name

lemma openScope (h : Mirrors indexed table) : Mirrors indexed.openScope table.openScope := by
  refine ⟨?_, List.forall_mem_append.mpr ⟨h.consistent, ?_⟩⟩
  · rw [IndexedTable.openScope, stack_openScope, List.map_append, h.scopes, h.length_scopes]
    rfl
  · simpa using Consistent.empty _

/-- The outermost scope is not closed on either side. -/
lemma closeScope (h : Mirrors indexed table) :
    Mirrors indexed.closeScope (Proofs.perform table .closeScope) := by
  unfold IndexedTable.closeScope Proofs.perform
  cases hclose : table.closeScope? with
  | none =>
    rw [if_pos (by rw [h.length_scopes, depth_of_closeScope?_eq_none hclose])]
    exact h
  | some closed =>
    obtain ⟨scope, rest⟩ := closed
    have hstack := stack_of_closeScope? hclose
    have hlt : 1 < indexed.scopes.length := by
      rw [h.length_scopes, ← length_stack, hstack, List.length_append, length_stack]
      simp [SymbolTable.depth]
    rw [if_neg (by omega)]
    refine ⟨?_, fun scope hscope => h.consistent scope (List.dropLast_subset _ hscope)⟩
    rw [List.map_dropLast, h.scopes, hstack, List.dropLast_concat]

lemma perform (h : Mirrors indexed table) (op : ScopeOp) :
    Mirrors (indexed.perform op) (Proofs.perform table op) := by
  cases op with
  | openScope => exact h.openScope
  | closeScope => exact h.closeScope
  | insert symbol =>
    rcases h.insert symbol with ⟨e, hindexed, htable⟩ | ⟨indexed', table', hindexed, htable, hsame⟩
    · rw [perform_insert_error htable, IndexedTable.perform, hindexed]
      exact h
    · rw [perform_insert_ok htable, IndexedTable.perform, hindexed]
      exact hsame
  | setVisible visible =>
    obtain ⟨below, current, hsplit, hcurrent, hmodify⟩ := h.exists_current
    have hconsistent : Consistent current := h.consistent current (by simp [hsplit])
    have hplain : { current with visible : IndexedScope }.plain =
        { table.current with visible : Scope } := by
      rw [← hcurrent]
      rfl
    exact hmodify (fun scope => { scope with visible }) (fun scope => { scope with visible }) hplain
      (hconsistent.setVisible visible)

end Mirrors

lemma mirrors_initial : Mirrors IndexedTable.initial SymbolTable.initial := by
  have hnames : (Library.symbols.map Symbol.name).Nodup :=
    (follows_initial.tracks 0 _ rfl).distinct
  obtain ⟨hconsistent, hplain⟩ := (Consistent.empty 0).foldl_add Library.symbols hnames
  refine ⟨?_, List.forall_mem_singleton.mpr hconsistent⟩
  rw [stack_initial, IndexedTable.initial, List.map_singleton, hplain]
  rfl

lemma mirrors_indexedAfter (ops : List ScopeOp) : Mirrors (indexedAfter ops) (tableAfter ops) := by
  induction ops using List.reverseRecOn with
  | nil => exact mirrors_initial
  | append_singleton ops op ih =>
    rw [tableAfter_snoc, indexedAfter_snoc]
    exact ih.perform op

lemma length_indexedAfter (ops : List ScopeOp) :
    (indexedAfter ops).scopes.length = levelAfter ops + 1 :=
  (mirrors_indexedAfter ops).length_scopes.trans (follows_tableAfter ops).depth

lemma tracks_indexedAfter {ops : List ScopeOp} {level : Nat} {scope : IndexedScope}
    (hscope : (indexedAfter ops).scopes[level]? = some scope) : Tracks ops level scope.plain := by
  refine (follows_tableAfter ops).tracks level scope.plain ?_
  rw [← (mirrors_indexedAfter ops).scopes, List.getElem?_map, hscope, Option.map_some]

/-- After any history the stack of indexed scopes is that of the symbol table. The library is at
its bottom, each scope knows its place, its index and its list agree on the symbols that the history
has put there, and the answers to insertions and lookups are those that can be told from the
history. -/
theorem symbolTable_refines_history (ops : List ScopeOp) :
    let table := tableAfter ops
    let indexed := indexedAfter ops
    indexed.scopes.map IndexedScope.plain = table.scopes.reverse ∧
      (∃ bottom above, indexed.scopes = bottom :: above ∧ above.length = levelAfter ops ∧
        Library.symbols <+: bottom.symbols) ∧
      (∀ level scope, indexed.scopes[level]? = some scope →
        scope.nesting = level ∧ Consistent scope ∧
          ∀ symbol, symbol ∈ scope.symbols ↔ FirstAt ops level symbol) ∧
      (∀ symbol e, indexed.insert symbol = .error e ↔ table.insert symbol = .error e) ∧
      (∀ symbol e, table.insert symbol = .error e ↔
        ∃ previous, FirstAt ops (levelAfter ops) previous ∧ previous.name = symbol.name ∧
          e = ⟨symbol.name, symbol.span, previous.span⟩) ∧
      (∀ symbol e, table.insert symbol = .error e →
        tableAfter (ops ++ [.insert symbol]) = table ∧
          indexedAfter (ops ++ [.insert symbol]) = indexed) ∧
      (∀ name, indexed.lookup? name = table.lookup? name) ∧
      ∀ name symbol, table.lookup? name = some symbol ↔ Seen ops name symbol := by
  intro table indexed
  have hmirrors : Mirrors indexed table := mirrors_indexedAfter ops
  refine ⟨hmirrors.scopes, ?_, ?_, hmirrors.insert_eq_error_iff, insert_eq_error_iff ops, ?_,
    hmirrors.lookup?, lookup?_eq_some_iff ops⟩
  · have hlength : indexed.scopes.length = levelAfter ops + 1 := length_indexedAfter ops
    obtain ⟨bottom, above, hscopes⟩ := List.exists_cons_of_length_eq_add_one hlength
    have hbottom : indexed.scopes[0]? = some bottom := by rw [hscopes, List.getElem?_cons_zero]
    rw [hscopes, List.length_cons] at hlength
    exact ⟨bottom, above, hscopes, Nat.succ.inj hlength, (tracks_indexedAfter hbottom).library rfl⟩
  · intro level scope hscope
    have htracks := tracks_indexedAfter hscope
    refine ⟨htracks.nesting, hmirrors.consistent scope (List.mem_of_getElem? hscope), ?_⟩
    exact fun symbol => (htracks.symbols symbol).trans putAt_iff_firstAt
  · intro symbol e herror
    refine ⟨(tableAfter_snoc ops _).trans (perform_insert_error herror), ?_⟩
    rw [indexedAfter_snoc, IndexedTable.perform,
      (hmirrors.insert_eq_error_iff symbol e).mpr herror]

end Llama.Proofs
