import Mathlib

/-! The part of Lua's C API that builds tables: values on a stack, whose places are counted from the top by negative
indices, and tables behind references. -/

namespace Jsregexp.Library.LuaApi

abbrev Name := List UInt8

inductive Value
  | nil
  | number (n : ℤ)
  | string (s : Name)
  | table (r : ℕ)
  | userdata (r : ℕ)
  | cfunction (r : ℕ)
  deriving DecidableEq, Repr

structure LuaTable where
  names : Name → Value
  items : ℤ → Value
  metatable : Option ℕ

/-- The top of the stack is its head. -/
structure State where
  stack : List Value
  heap : List LuaTable
  registry : Name → Value

def record (l : List (Name × Value)) (k : Name) : Value := (l.lookup k).getD .nil

def indexed (l : List Value) (n : ℤ) : Value := if 0 ≤ n then l[n.toNat]?.getD .nil else .nil

namespace LuaTable

def empty : LuaTable := ⟨record [], indexed [], none⟩
def setName (t : LuaTable) (k : Name) (v : Value) : LuaTable := { t with names := Function.update t.names k v }
def setItem (t : LuaTable) (n : ℤ) (v : Value) : LuaTable := { t with items := Function.update t.items n v }

end LuaTable

namespace State

variable (L : State)

def index (idx : ℤ) : Option Value := if idx < 0 then L.stack[(-idx - 1).toNat]? else none

def tableAt (idx : ℤ) : Option (ℕ × LuaTable) :=
  match L.index idx with
  | some (.table r) => L.heap[r]?.map fun t => (r, t)
  | _ => none

def push (v : Value) : State := { L with stack := v :: L.stack }

def createTable : State := { L with stack := .table L.heap.length :: L.stack, heap := L.heap ++ [.empty] }

def pushValue (idx : ℤ) : Option State := (L.index idx).map L.push

def insert (idx : ℤ) : Option State :=
  match L.stack with
  | [] => none
  | v :: stack =>
    let n := (-idx - 1).toNat
    if idx < 0 ∧ n ≤ stack.length then some { L with stack := stack.take n ++ v :: stack.drop n } else none

def store (idx : ℤ) (f : LuaTable → Value → LuaTable) : Option State :=
  match L.stack, L.tableAt idx with
  | v :: stack, some (r, t) => some { L with stack := stack, heap := L.heap.set r (f t v) }
  | _, _ => none

def rawSetI (idx n : ℤ) : Option State := L.store idx fun t v => t.setItem n v

def newIndex : Name := "__newindex".toList.map fun c => UInt8.ofNat c.toNat

def isRaw (t : LuaTable) : Bool :=
  match t.metatable.bind fun m => L.heap[m]? with
  | none => true
  | some mt => mt.names newIndex = .nil

/-- `lua_setfield`; what a metamethod does is not modelled. -/
def setField (idx : ℤ) (k : Name) : Option State :=
  match L.tableAt idx with
  | some (_, t) => if t.names k ≠ .nil ∨ L.isRaw t then L.store idx fun t v => t.setName k v else none
  | none => none

def newMetatable (k : Name) : State :=
  { L.createTable with registry := Function.update L.registry k (.table L.heap.length) }

def getMetatable (k : Name) : State := L.push (L.registry k)

def setMetatable (idx : ℤ) : Option State :=
  match L.stack with
  | .table m :: _ => L.store idx fun t _ => { t with metatable := some m }
  | .nil :: _ => L.store idx fun t _ => { t with metatable := none }
  | _ => none

end State

section Fields

lemma update_record (l : List (Name × Value)) (k : Name) (v : Value) :
    Function.update (record l) k v = record ((k, v) :: l) := by
  funext j
  by_cases hj : j = k
  · simp [hj, record]
  · have hb : (j == k) = false := by simpa using hj
    simp [Function.update_of_ne hj, record, List.lookup_cons, hb]

lemma record_filter (l : List (Name × Value)) (k : Name) (v : Value) :
    record ((k, v) :: l.filter fun e => e.1 ≠ k) = record ((k, v) :: l) := by
  funext j
  by_cases hj : j = k
  · simp [hj, record]
  · have hb : (j == k) = false := by simpa using hj
    simp only [record, List.lookup_cons, hb]
    congr 1
    induction l with
    | nil => rfl
    | cons e l ih =>
      by_cases he : e.1 = k
      · have hje : (j == e.1) = false := by simpa [he] using hj
        rw [List.filter_cons_of_neg (by simpa using he), ih, List.lookup_cons, hje]
      · rw [List.filter_cons_of_pos (by simpa using he), List.lookup_cons, List.lookup_cons, ih]

lemma update_indexed (l : List Value) (v : Value) :
    Function.update (indexed l) l.length v = indexed (l ++ [v]) := by
  funext n
  by_cases hn : n = l.length
  · subst hn
    simp [indexed]
  · rw [Function.update_of_ne hn, indexed, indexed]
    split
    · next h0 =>
      rcases Nat.lt_or_ge n.toNat l.length with hlt | hge
      · rw [List.getElem?_append_left hlt]
      · have hgt : l.length + 1 ≤ n.toNat := by omega
        rw [List.getElem?_eq_none hge, List.getElem?_eq_none (by simpa using hgt)]
    · rfl

lemma setName_record (l : List (Name × Value)) (items : ℤ → Value) (m : Option ℕ) (k : Name) (v : Value) :
    (LuaTable.mk (record l) items m).setName k v = ⟨record ((k, v) :: l), items, m⟩ := by
  rw [LuaTable.setName, update_record]

lemma setItem_indexed (names : Name → Value) (l : List Value) (m : Option ℕ) (v : Value) :
    (LuaTable.mk names (indexed l) m).setItem l.length v = ⟨names, indexed (l ++ [v]), m⟩ := by
  rw [LuaTable.setItem, update_indexed]

end Fields

section Steps

variable {S : List Value} {H : List LuaTable} {R : Name → Value} {v : Value} {idx : ℤ} {r : ℕ} {t : LuaTable}

lemma store_eq (hat : (State.mk (v :: S) H R).index idx = some (.table r)) (ht : H[r]? = some t)
    (f : LuaTable → Value → LuaTable) :
    (State.mk (v :: S) H R).store idx f = some ⟨S, H.set r (f t v), R⟩ := by
  simp [State.store, State.tableAt, hat, ht]

lemma rawSetI_eq (hat : (State.mk (v :: S) H R).index idx = some (.table r)) (ht : H[r]? = some t) (n : ℤ) :
    (State.mk (v :: S) H R).rawSetI idx n = some ⟨S, H.set r (t.setItem n v), R⟩ :=
  store_eq hat ht _

lemma setField_eq (hat : (State.mk (v :: S) H R).index idx = some (.table r)) (ht : H[r]? = some t)
    (hraw : (State.mk (v :: S) H R).isRaw t = true) (k : Name) :
    (State.mk (v :: S) H R).setField idx k = some ⟨S, H.set r (t.setName k v), R⟩ := by
  rw [State.setField, State.tableAt, hat]
  simp only [ht, Option.map_some, hraw, or_true, if_true]
  exact store_eq hat ht _

lemma setMetatable_eq {m : ℕ} (hat : (State.mk (.table m :: S) H R).index idx = some (.table r)) (ht : H[r]? = some t) :
    (State.mk (.table m :: S) H R).setMetatable idx = some ⟨S, H.set r { t with metatable := some m }, R⟩ :=
  store_eq hat ht _

lemma getElem?_behind (H new : List LuaTable) (k : ℕ) : (H ++ new)[H.length + k]? = new[k]? := by
  rw [List.getElem?_append_right (Nat.le_add_right _ _), Nat.add_sub_cancel_left]

lemma set_behind (H new : List LuaTable) (k : ℕ) (t : LuaTable) :
    (H ++ new).set (H.length + k) t = H ++ new.set k t := by
  rw [List.set_append_right _ _ (Nat.le_add_right _ _), Nat.add_sub_cancel_left]

lemma createTable_behind (S : List Value) (H new : List LuaTable) (R : Name → Value) :
    (State.mk S (H ++ new) R).createTable = ⟨.table (H.length + new.length) :: S, H ++ (new ++ [.empty]), R⟩ := by
  rw [State.createTable, List.length_append, List.append_assoc]

lemma setField_behind {new : List LuaTable} {k : ℕ}
    (hat : (State.mk (v :: S) (H ++ new) R).index idx = some (.table (H.length + k))) (ht : new[k]? = some t)
    (hraw : (State.mk (v :: S) (H ++ new) R).isRaw t = true) (key : Name) :
    (State.mk (v :: S) (H ++ new) R).setField idx key = some ⟨S, H ++ new.set k (t.setName key v), R⟩ := by
  rw [setField_eq hat (by rw [getElem?_behind, ht]) hraw, set_behind]

lemma isRaw_of_none {L : State} (h : t.metatable = none) : L.isRaw t = true := by
  rw [State.isRaw, h]
  rfl

lemma isRaw_of_some {L : State} {m : ℕ} {mt : LuaTable} (h : t.metatable = some m) (hm : L.heap[m]? = some mt)
    (hn : mt.names State.newIndex = .nil) : L.isRaw t = true := by
  rw [State.isRaw, h, Option.bind_some, hm]
  exact decide_eq_true hn

end Steps

end Jsregexp.Library.LuaApi
