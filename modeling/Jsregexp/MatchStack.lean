import Jsregexp.ExecTurns
import Jsregexp.Library.LuaApi

namespace Jsregexp

open Library.LuaApi

section Source

/-- A call of the API is undefined where an index names no table. -/
def valid {α : Type} : Option α → Except Failure α
  | some a => .ok a
  | none => .error .undefined

def jsregexpMatchMt : Bytes := bytesOf "jsregexp_match_meta"

variable (bc : Bytecode) (input : JsString) (capture : List (Option ℕ))

def pushMatch (L : State) : Except Failure State := do
  let L := L.createTable
  let L := L.getMetatable jsregexpMatchMt
  let L ← valid (L.setMetatable (-2))
  let L := L.push (.string (cString input.bstr))
  let L ← valid (L.setField (-2) (bytesOf "input"))
  let L := L.push (.number bc.lreGetCaptureCount)
  let L ← valid (L.setField (-2) (bytesOf "capture_count"))
  let index ← matchIndex input (slot capture 0)
  let L := L.push (.number index)
  valid (L.setField (-2) (bytesOf "index"))

def pushIndexGroups (L : State) : Except Failure State := do
  let L := L.createTable
  let L ← valid (L.pushValue (-1))
  let L ← valid (L.insert (-4))
  valid (L.setField (-2) (bytesOf "groups"))

def hangTable (k : Name) (L : State) : Except Failure State := do
  let L ← valid (L.pushValue (-1))
  let L ← valid (L.setField (-3) k)
  valid (L.insert (-2))

def pushIndices (hasNames : Bool) (L : State) : Except Failure State := do
  let L := L.createTable
  let L ← if hasNames then pushIndexGroups L else pure L
  hangTable (bytesOf "indices") L

def pushGroups (L : State) : Except Failure State := hangTable (bytesOf "groups") L.createTable

def pushTables (L : State) : Except Failure State := do
  let L ← pushMatch bc input capture L
  let L ← if bc.hasFlag lreFlagIndices then pushIndices bc.lreGetGroupnames.isSome L else pure L
  if bc.lreGetGroupnames.isSome then pushGroups L else pure L

def fileNamed (idx : ℤ) (i : ℕ) (p : Bytes) (L : State) : Except Failure (State × Bytes) :=
  if i > 0 then do
    let (key, q) ← readGroupName p
    if key = [] then pure (L, q)
    else do
      let L ← valid (L.pushValue (-1))
      let L ← valid (L.setField idx key)
      pure (L, q)
  else pure (L, p)

def pushPair (p : ℕ × ℕ) (L : State) : Except Failure State := do
  let L := L.createTable
  let L := L.push (.number p.1)
  let L ← valid (L.rawSetI (-2) 1)
  let L := L.push (.number p.2)
  valid (L.rawSetI (-2) 2)

def filePair (i : ℕ) (g : GroupReport) (groupNames : Option Bytes) (L : State) : Except Failure State := do
  let L ← pushPair g.pair L
  match groupNames with
  | some p => do
    let (L, _) ← fileNamed (-7) i p L
    valid (L.rawSetI (-5) i)
  | none => valid (L.rawSetI (-4) i)

def fileString (i : ℕ) (groupNames : Option Bytes) (L : State) : Except Failure (State × Option Bytes) :=
  match groupNames with
  | some p => do
    let (L, q) ← fileNamed (-4) i p L
    pure (L, some q)
  | none => pure (L, none)

def stackTurn (i : ℕ) (groupNames : Option Bytes) (L : State) : Except Failure (State × Option Bytes) := do
  let g ← reportGroup input (slot capture (2 * i)) (slot capture (2 * i + 1))
  let L := L.push (.string g.str)
  let L ← (if bc.hasFlag lreFlagIndices then filePair i g groupNames L else pure L)
  let (L, groupNames) ← fileString i groupNames L
  let L ← valid (L.rawSetI (-2) i)
  pure (L, groupNames)

def stackLoop : ℕ → ℕ → Option Bytes → State → Except Failure (State × Option Bytes)
  | 0, _, groupNames, L => .ok (L, groupNames)
  | n + 1, i, groupNames, L => do
    let (L, groupNames) ← stackTurn bc input capture i groupNames L
    stackLoop n (i + 1) groupNames L

def openMatchMeta (matchTostring : ℕ) (L : State) : Except Failure State := do
  let L := L.newMetatable jsregexpMatchMt
  let L := L.push (.cfunction matchTostring)
  valid (L.setField (-2) (bytesOf "__tostring"))

def returnMatch (L : State) : Except Failure (State × Value) := do
  let L ← pushTables bc input capture L
  let (L, _) ← stackLoop bc input capture bc.lreGetCaptureCount 0 bc.lreGetGroupnames L
  let v ← valid (L.index (-1))
  pure (L, v)

end Source

section Shape

structure Tables where
  matched : ℕ
  groups : Option ℕ
  indices : Option ℕ
  indexGroups : Option ℕ
  deriving DecidableEq, Repr

def Tables.refs (ts : Tables) : List ℕ :=
  ts.matched :: (ts.groups.toList ++ ts.indices.toList ++ ts.indexGroups.toList)

def Tables.stack (ts : Tables) : List Value := ts.refs.map .table

def tablesFrom (n : ℕ) (hasIndices hasNames : Bool) : Tables where
  matched := n
  groups := if hasNames then some (if hasIndices then n + 3 else n + 1) else none
  indices := if hasIndices then some (n + 1) else none
  indexGroups := if hasIndices && hasNames then some (n + 2) else none

def pairTable (p : ℕ × ℕ) : LuaTable := (LuaTable.empty.setItem 1 (.number p.1)).setItem 2 (.number p.2)

def matchFields (input : Bytes) (captureCount index : ℕ) (ts : Tables) : List (Name × Value) :=
  (ts.groups.toList.map fun r => (bytesOf "groups", .table r)) ++
    (ts.indices.toList.map fun r => (bytesOf "indices", .table r)) ++
    [(bytesOf "index", .number index), (bytesOf "capture_count", .number captureCount),
      (bytesOf "input", .string input)]

def IsPair (ts : Tables) (H : List LuaTable) (v : Value) (p : ℕ × ℕ) : Prop :=
  ∃ r, v = .table r ∧ r ∉ ts.refs ∧ H[r]? = some (pairTable p)

/-- The tables in the heap hold what the turns so far have filed, and the rest of the heap is as it was. -/
structure Filed (base : List LuaTable) (ts : Tables) (fields : List (Name × Value)) (mt : Option ℕ) (st : CaptureState)
    (H : List LuaTable) : Prop where
  nodup : ts.refs.Nodup
  below : ∀ r < base.length, H[r]? = base[r]?
  fresh : ∀ r ∈ ts.refs, base.length ≤ r ∧ r < H.length
  matched : H[ts.matched]? = some ⟨record fields, indexed (st.captures.map .string), mt⟩
  groups : ∀ r, ts.groups = some r →
    H[r]? = some ⟨record (st.groups.map fun e => (e.1, .string e.2)), indexed [], none⟩
  indices : ∀ r, ts.indices = some r → ∃ items,
    H[r]? = some ⟨record (ts.indexGroups.toList.map fun r => (bytesOf "groups", .table r)), indexed items, none⟩ ∧
      List.Forall₂ (IsPair ts H) items st.pairs
  indexGroups : ∀ r, ts.indexGroups = some r → ∃ entries : List (Name × Value),
    H[r]? = some ⟨record entries, indexed [], none⟩ ∧
      List.Forall₂ (fun e e' => e.1 = e'.1 ∧ IsPair ts H e.2 e'.2) entries st.indexGroups

end Shape

section Setup

variable {bc : Bytecode} {input : JsString} {capture : List (Option ℕ)} {S : List Value} {H : List LuaTable}
variable {R : Name → Value} {mt : ℕ}

def Registered (mt : ℕ) (H : List LuaTable) (R : Name → Value) : Prop :=
  R jsregexpMatchMt = .table mt ∧ ∃ t, H[mt]? = some t ∧ t.names State.newIndex = .nil

lemma registered_open {matchTostring : ℕ} {L : State} (h : openMatchMeta matchTostring ⟨S, H, R⟩ = .ok L) :
    Registered H.length L.heap L.registry := by
  have hset : (State.mk (.cfunction matchTostring :: .table H.length :: S) (H ++ [.empty])
      (Function.update R jsregexpMatchMt (.table H.length))).setField (-2) (bytesOf "__tostring") =
        some ⟨.table H.length :: S,
          H ++ [⟨record [(bytesOf "__tostring", .cfunction matchTostring)], indexed [], none⟩],
          Function.update R jsregexpMatchMt (.table H.length)⟩ := by
    rw [setField_behind (k := 0) rfl rfl (isRaw_of_none rfl), LuaTable.empty, setName_record]
    rfl
  have h' : valid (State.setField ⟨.cfunction matchTostring :: .table H.length :: S, H ++ [.empty],
      Function.update R jsregexpMatchMt (.table H.length)⟩ (-2) (bytesOf "__tostring")) = .ok L := h
  rw [hset] at h'
  obtain rfl := Except.ok.inj h'
  exact ⟨Function.update_self jsregexpMatchMt _ R, _, getElem?_behind H _ 0, rfl⟩

lemma Registered.isRaw (h : Registered mt H R) {S : List Value} {new : List LuaTable} {t : LuaTable}
    (ht : t.metatable = some mt) : (State.mk S (H ++ new) R).isRaw t = true := by
  obtain ⟨-, m, hm, hn⟩ := h
  have hlt : mt < H.length := by
    by_contra hge
    rw [List.getElem?_eq_none (Nat.le_of_not_lt hge)] at hm
    cases hm
  exact isRaw_of_some ht (by rw [List.getElem?_append_left hlt, hm]) hn

def matchTable (bc : Bytecode) (input : JsString) (index mt : ℕ) (ts : Tables) : LuaTable :=
  ⟨record (matchFields (cString input.bstr) bc.captureCount index ts), indexed [], some mt⟩

lemma pushMatch_eq (h : Registered mt H R) :
    pushMatch bc input capture ⟨S, H, R⟩ = (matchIndex input (slot capture 0)).map fun index =>
      ⟨.table H.length :: S, H ++ [matchTable bc input index mt ⟨H.length, none, none, none⟩], R⟩ := by
  have hraw {S : List Value} {T : LuaTable} (l : List (Name × Value)) :
      (State.mk S (H ++ [T]) R).isRaw ⟨record l, indexed [], some mt⟩ = true := h.isRaw rfl
  have hmeta : (State.mk (.table mt :: .table H.length :: S) (H ++ [.empty]) R).setMetatable (-2) =
      some ⟨.table H.length :: S, H ++ [⟨record [], indexed [], some mt⟩], R⟩ := by
    rw [setMetatable_eq rfl (getElem?_behind H [.empty] 0)]
    exact congrArg (fun H' => some (State.mk _ H' R)) (set_behind H [.empty] 0 _)
  have hset (l : List (Name × Value)) (k : Name) (v : Value) :
      (State.mk (v :: .table H.length :: S) (H ++ [⟨record l, indexed [], some mt⟩]) R).setField (-2) k =
        some ⟨.table H.length :: S, H ++ [⟨record ((k, v) :: l), indexed [], some mt⟩], R⟩ := by
    rw [setField_behind (k := 0) rfl rfl (hraw l), setName_record]
    rfl
  simp only [pushMatch, State.createTable, State.getMetatable, State.push, h.1, hmeta, hset, valid, bind, Except.bind]
  cases matchIndex input (slot capture 0) with
  | error e => rfl
  | ok index => rfl

variable {M : LuaTable} (h : Registered mt H R) (hM : M.metatable = some mt)

lemma pushIndexGroups_eq {v : Value} : pushIndexGroups ⟨.table (H.length + 1) :: v :: S, H ++ [M, .empty], R⟩ =
    .ok ⟨.table (H.length + 1) :: v :: .table (H.length + 2) :: S,
      H ++ [M, ⟨record [(bytesOf "groups", .table (H.length + 2))], indexed [], none⟩, .empty], R⟩ := by
  have hset : (State.mk (.table (H.length + 2) :: .table (H.length + 1) :: v :: .table (H.length + 2) :: S)
      (H ++ [M, .empty, .empty]) R).setField (-2) (bytesOf "groups") =
        some ⟨.table (H.length + 1) :: v :: .table (H.length + 2) :: S,
          H ++ [M, ⟨record [(bytesOf "groups", .table (H.length + 2))], indexed [], none⟩, .empty], R⟩ := by
    rw [setField_behind (k := 1) rfl rfl (isRaw_of_none rfl), LuaTable.empty, setName_record]
    rfl
  rw [pushIndexGroups, createTable_behind]
  show valid (State.setField _ (-2) (bytesOf "groups")) = _
  exact congrArg valid hset

include h hM

lemma hangTable_eq {r : ℕ} {N : List LuaTable} (k : Name) :
    hangTable k ⟨.table r :: .table H.length :: S, H ++ M :: N, R⟩ =
      .ok ⟨.table H.length :: .table r :: S, H ++ M.setName k (.table r) :: N, R⟩ := by
  have hset : (State.mk (.table r :: .table r :: .table H.length :: S) (H ++ M :: N) R).setField (-3) k =
      some ⟨.table r :: .table H.length :: S, H ++ M.setName k (.table r) :: N, R⟩ := by
    rw [setField_behind (k := 0) rfl rfl (h.isRaw hM)]
    rfl
  show (valid (State.setField _ (-3) k) >>= fun L => valid (L.insert (-2))) = _
  exact congrArg (fun L => valid L >>= fun L => valid (L.insert (-2))) hset

lemma pushIndices_unnamed : pushIndices false ⟨.table H.length :: S, H ++ [M], R⟩ =
    .ok ⟨.table H.length :: .table (H.length + 1) :: S,
      H ++ [M.setName (bytesOf "indices") (.table (H.length + 1)), .empty], R⟩ := by
  rw [pushIndices, createTable_behind]
  exact hangTable_eq h hM _

lemma pushIndices_named : pushIndices true ⟨.table H.length :: S, H ++ [M], R⟩ =
    .ok ⟨.table H.length :: .table (H.length + 1) :: .table (H.length + 2) :: S,
      H ++ [M.setName (bytesOf "indices") (.table (H.length + 1)),
        ⟨record [(bytesOf "groups", .table (H.length + 2))], indexed [], none⟩, .empty], R⟩ := by
  rw [pushIndices, createTable_behind]
  exact (congrArg (· >>= hangTable (bytesOf "indices")) pushIndexGroups_eq).trans (hangTable_eq h hM _)

lemma pushGroups_eq {N : List LuaTable} : pushGroups ⟨.table H.length :: S, H ++ M :: N, R⟩ =
    .ok ⟨.table H.length :: .table (H.length + N.length + 1) :: S,
      H ++ M.setName (bytesOf "groups") (.table (H.length + N.length + 1)) :: (N ++ [.empty]), R⟩ := by
  rw [pushGroups, createTable_behind]
  exact hangTable_eq h hM _

omit hM

def createdTables (T : LuaTable) (ts : Tables) : List LuaTable :=
  T :: ((ts.indices.toList.map fun _ =>
      ⟨record (ts.indexGroups.toList.map fun r => (bytesOf "groups", .table r)), indexed [], none⟩) ++
    (ts.indexGroups.toList.map fun _ => .empty) ++ ts.groups.toList.map fun _ => .empty)

lemma pushTables_eq : pushTables bc input capture ⟨S, H, R⟩ =
    (matchIndex input (slot capture 0)).map fun index =>
      ⟨(tablesFrom H.length (bc.hasFlag lreFlagIndices) bc.lreGetGroupnames.isSome).stack ++ S,
        H ++ createdTables (matchTable bc input index mt
            (tablesFrom H.length (bc.hasFlag lreFlagIndices) bc.lreGetGroupnames.isSome))
          (tablesFrom H.length (bc.hasFlag lreFlagIndices) bc.lreGetGroupnames.isSome), R⟩ := by
  rw [pushTables, pushMatch_eq h]
  cases matchIndex input (slot capture 0) with
  | error e => rfl
  | ok index =>
    let start : Tables := ⟨H.length, none, none, none⟩
    let M := matchTable bc input index mt start
    have hname (ts : Tables) (k : Name) (v : Value) : (matchTable bc input index mt ts).setName k v =
        ⟨record ((k, v) :: matchFields (cString input.bstr) bc.captureCount index ts), indexed [], some mt⟩ :=
      setName_record _ _ _ _ _
    cases bc.hasFlag lreFlagIndices with
    | false =>
      cases bc.lreGetGroupnames.isSome with
      | false => rfl
      | true =>
        have hg := pushGroups_eq (S := S) (M := M) (N := []) h rfl
        rw [hname] at hg
        exact hg
    | true =>
      cases bc.lreGetGroupnames.isSome with
      | false =>
        have hi := pushIndices_unnamed (S := S) (M := M) h rfl
        rw [hname] at hi
        exact congrArg (· >>= fun L => if false then pushGroups L else pure L) hi
      | true =>
        have hi := pushIndices_named (S := S) (M := M) h rfl
        let I := matchTable bc input index mt { start with indices := some (H.length + 1) }
        have hg := pushGroups_eq (S := .table (H.length + 1) :: .table (H.length + 2) :: S) (M := I)
          (N := [⟨record [(bytesOf "groups", .table (H.length + 2))], indexed [], none⟩, .empty]) h rfl
        rw [hname] at hi hg
        exact (congrArg (· >>= pushGroups) hi).trans hg

end Setup

section Frame

variable {base H N : List LuaTable} {ts : Tables} {fields : List (Name × Value)} {mt : Option ℕ} {st : CaptureState}

lemma getElem?_append_some {r : ℕ} {t : LuaTable} (h : H[r]? = some t) : (H ++ N)[r]? = some t := by
  rw [List.getElem?_append_left (List.getElem?_eq_some_iff.mp h).1, h]

lemma IsPair.append {v : Value} {p : ℕ × ℕ} (h : IsPair ts H v p) : IsPair ts (H ++ N) v p := by
  obtain ⟨r, hv, hr, ht⟩ := h
  exact ⟨r, hv, hr, getElem?_append_some ht⟩

lemma IsPair.set {v : Value} {p : ℕ × ℕ} {r : ℕ} {t : LuaTable} (h : IsPair ts H v p) (hr : r ∈ ts.refs) :
    IsPair ts (H.set r t) v p := by
  obtain ⟨r', hv, hr', ht⟩ := h
  have hne : r ≠ r' := fun he => hr' (he ▸ hr)
  exact ⟨r', hv, hr', by rw [List.getElem?_set_ne hne, ht]⟩

lemma Filed.append (h : Filed base ts fields mt st H) : Filed base ts fields mt st (H ++ N) where
  nodup := h.nodup
  below r hr := by
    have hm := h.fresh ts.matched List.mem_cons_self
    rw [List.getElem?_append_left (by omega), h.below r hr]
  fresh r hr := by
    rw [List.length_append]
    exact ⟨(h.fresh r hr).1, Nat.lt_add_right _ (h.fresh r hr).2⟩
  matched := getElem?_append_some h.matched
  groups r hr := getElem?_append_some (h.groups r hr)
  indices r hr := by
    obtain ⟨items, ht, hp⟩ := h.indices r hr
    exact ⟨items, getElem?_append_some ht, hp.imp fun _ _ hp => hp.append⟩
  indexGroups r hr := by
    obtain ⟨entries, ht, hp⟩ := h.indexGroups r hr
    exact ⟨entries, getElem?_append_some ht, hp.imp fun _ _ hp => ⟨hp.1, hp.2.append⟩⟩

lemma Filed.others (h : Filed base ts fields mt st H) {r : ℕ} (hr : r ∈ ts.refs) (t : LuaTable) :
    (∀ r' < base.length, (H.set r t)[r']? = base[r']?) ∧ (∀ r' ∈ ts.refs, base.length ≤ r' ∧ r' < (H.set r t).length) ∧
      (H.set r t)[r]? = some t ∧ ∀ r' t', r ≠ r' → H[r']? = some t' → (H.set r t)[r']? = some t' := by
  have hlt := h.fresh r hr
  refine ⟨fun r' hr' => ?_, fun r' hr' => ?_, List.getElem?_set_self hlt.2, fun r' t' hne ht' => ?_⟩
  · rw [List.getElem?_set_ne (by omega), h.below r' hr']
  · rw [List.length_set]
    exact h.fresh r' hr'
  · rw [List.getElem?_set_ne hne, ht']

lemma mem_refs_groups {r : ℕ} (h : ts.groups = some r) : r ∈ ts.refs := by simp [Tables.refs, h]
lemma mem_refs_indices {r : ℕ} (h : ts.indices = some r) : r ∈ ts.refs := by simp [Tables.refs, h]
lemma mem_refs_indexGroups {r : ℕ} (h : ts.indexGroups = some r) : r ∈ ts.refs := by simp [Tables.refs, h]

lemma Tables.distinct (h : ts.refs.Nodup) : (∀ r, ts.groups = some r → ts.matched ≠ r) ∧
    (∀ r, ts.indices = some r → ts.matched ≠ r) ∧ (∀ r, ts.indexGroups = some r → ts.matched ≠ r) ∧
    (∀ r r', ts.groups = some r → ts.indices = some r' → r ≠ r') ∧
    (∀ r r', ts.groups = some r → ts.indexGroups = some r' → r ≠ r') ∧
    ∀ r r', ts.indices = some r → ts.indexGroups = some r' → r ≠ r' := by
  obtain ⟨m, g, i, ig⟩ := ts
  simp only [Tables.refs, List.nodup_cons, List.nodup_append, List.mem_append, Option.mem_toList] at h ⊢
  obtain ⟨hm, ⟨-, -, hgi⟩, -, hig⟩ := h
  refine ⟨?_, ?_, ?_, ?_, ?_, ?_⟩
  · rintro r hr rfl
    exact hm (.inl (.inl hr))
  · rintro r hr rfl
    exact hm (.inl (.inr hr))
  · rintro r hr rfl
    exact hm (.inr hr)
  · exact fun r r' hr hr' => hgi r hr r' hr'
  · exact fun r r' hr hr' => hig r (.inl hr) r' hr'
  · exact fun r r' hr hr' => hig r (.inr hr) r' hr'

section Write

variable (h : Filed base ts fields mt st H)
include h

lemma Filed.fileCapture (s : Bytes) : ∃ t, H[ts.matched]? = some t ∧
    Filed base ts fields mt { st with captures := st.captures ++ [s] }
      (H.set ts.matched (t.setItem st.captures.length (.string s))) := by
  refine ⟨_, h.matched, ?_⟩
  have hmem : ts.matched ∈ ts.refs := List.mem_cons_self
  obtain ⟨hbelow, hfresh, hself, hother⟩ := h.others hmem
    (LuaTable.setItem ⟨record fields, indexed (st.captures.map .string), mt⟩ st.captures.length (.string s))
  obtain ⟨hmg, hmi, hmig, -, -, -⟩ := ts.distinct h.nodup
  refine ⟨h.nodup, hbelow, hfresh, ?_, ?_, ?_, ?_⟩
  · have hitems := setItem_indexed (record fields) (st.captures.map .string) mt (.string s)
    rw [List.length_map] at hitems
    rw [hself, hitems, List.map_append]
    rfl
  · exact fun r hr => hother r _ (hmg r hr) (h.groups r hr)
  · intro r hr
    obtain ⟨items, ht, hp⟩ := h.indices r hr
    exact ⟨items, hother r _ (hmi r hr) ht, hp.imp fun _ _ hp => hp.set hmem⟩
  · intro r hr
    obtain ⟨entries, ht, hp⟩ := h.indexGroups r hr
    exact ⟨entries, hother r _ (hmig r hr) ht, hp.imp fun _ _ hp => ⟨hp.1, hp.2.set hmem⟩⟩

lemma Filed.fileGroup {g : ℕ} (hg : ts.groups = some g) (key s : Bytes) : ∃ t, H[g]? = some t ∧ t.metatable = none ∧
    Filed base ts fields mt { st with groups := st.groups.setField key s } (H.set g (t.setName key (.string s))) := by
  refine ⟨_, h.groups g hg, rfl, ?_⟩
  have hmem := mem_refs_groups hg
  obtain ⟨hbelow, hfresh, hself, hother⟩ := h.others hmem (LuaTable.setName
    ⟨record (st.groups.map fun e => (e.1, .string e.2)), indexed [], none⟩ key (.string s))
  obtain ⟨hmg, -, -, hgi, hgig, -⟩ := ts.distinct h.nodup
  refine ⟨h.nodup, hbelow, hfresh, hother _ _ (hmg g hg).symm h.matched, ?_, ?_, ?_⟩
  · intro r hr
    obtain rfl := Option.some.inj (hg.symm.trans hr)
    have hfilter : (st.groups.filter fun e => e.1 ≠ key).map (fun e => (e.1, Value.string e.2)) =
        (st.groups.map fun e => (e.1, Value.string e.2)).filter fun e => e.1 ≠ key := by
      rw [List.filter_map]
      rfl
    rw [hself, setName_record, Table.setField, List.map_cons, hfilter, record_filter]
  · intro r hr
    obtain ⟨items, ht, hp⟩ := h.indices r hr
    exact ⟨items, hother r _ (hgi g r hg hr) ht, hp.imp fun _ _ hp => hp.set hmem⟩
  · intro r hr
    obtain ⟨entries, ht, hp⟩ := h.indexGroups r hr
    exact ⟨entries, hother r _ (hgig g r hg hr) ht, hp.imp fun _ _ hp => ⟨hp.1, hp.2.set hmem⟩⟩

variable {v : Value} {p : ℕ × ℕ} (hv : IsPair ts H v p)
include hv

lemma Filed.filePair {r : ℕ} (hr : ts.indices = some r) : ∃ t, H[r]? = some t ∧
    Filed base ts fields mt { st with pairs := st.pairs ++ [p] } (H.set r (t.setItem st.pairs.length v)) := by
  obtain ⟨items, ht, hp⟩ := h.indices r hr
  refine ⟨_, ht, ?_⟩
  have hmem := mem_refs_indices hr
  obtain ⟨hbelow, hfresh, hself, hother⟩ := h.others hmem (LuaTable.setItem
    ⟨record (ts.indexGroups.toList.map fun r => (bytesOf "groups", .table r)), indexed items, none⟩ st.pairs.length v)
  obtain ⟨-, hmi, -, hgi, -, hiig⟩ := ts.distinct h.nodup
  refine ⟨h.nodup, hbelow, hfresh, hother _ _ (hmi r hr).symm h.matched, ?_, ?_, ?_⟩
  · exact fun g hg => hother g _ (hgi g r hg hr).symm (h.groups g hg)
  · intro r' hr'
    obtain rfl := Option.some.inj (hr.symm.trans hr')
    refine ⟨items ++ [v], ?_, ?_⟩
    · rw [hself, ← hp.length_eq, setItem_indexed]
    · exact List.rel_append (hp.imp fun _ _ hp => hp.set hmem) (.cons (hv.set hmem) .nil)
  · intro r' hr'
    obtain ⟨entries, ht', hp'⟩ := h.indexGroups r' hr'
    exact ⟨entries, hother r' _ (hiig r r' hr hr') ht', hp'.imp fun _ _ hp => ⟨hp.1, hp.2.set hmem⟩⟩

lemma Filed.fileIndexGroup {r : ℕ} (hr : ts.indexGroups = some r) (key : Bytes) : ∃ t, H[r]? = some t ∧
    t.metatable = none ∧
    Filed base ts fields mt { st with indexGroups := st.indexGroups.setField key p } (H.set r (t.setName key v)) := by
  obtain ⟨entries, ht, hp⟩ := h.indexGroups r hr
  refine ⟨_, ht, rfl, ?_⟩
  have hmem := mem_refs_indexGroups hr
  obtain ⟨hbelow, hfresh, hself, hother⟩ := h.others hmem (LuaTable.setName ⟨record entries, indexed [], none⟩ key v)
  obtain ⟨-, -, hmig, -, hgig, hiig⟩ := ts.distinct h.nodup
  refine ⟨h.nodup, hbelow, hfresh, hother _ _ (hmig r hr).symm h.matched, ?_, ?_, ?_⟩
  · exact fun g hg => hother g _ (hgig g r hg hr).symm (h.groups g hg)
  · intro r' hr'
    obtain ⟨items, ht', hp'⟩ := h.indices r' hr'
    exact ⟨items, hother r' _ (hiig r' r hr' hr).symm ht', hp'.imp fun _ _ hp => hp.set hmem⟩
  · intro r' hr'
    obtain rfl := Option.some.inj (hr.symm.trans hr')
    refine ⟨(key, v) :: entries.filter fun e => e.1 ≠ key, ?_, ?_⟩
    · rw [hself, setName_record, record_filter]
    · refine .cons ⟨rfl, hv.set hmem⟩ (List.rel_filter ?_ (hp.imp fun _ _ hp => ⟨hp.1, hp.2.set hmem⟩))
      intro e e' he
      simp [he.1]

end Write

end Frame

section Turn

variable {base H : List LuaTable} {ts : Tables} {fields : List (Name × Value)} {mt : Option ℕ} {st : CaptureState}
variable {S : List Value} {R : Name → Value} {i : ℕ}

structure Tables.Has (ts : Tables) (hasIndices hasNames : Bool) : Prop where
  groups : ts.groups.isSome = hasNames
  indices : ts.indices.isSome = hasIndices
  indexGroups : ts.indexGroups.isSome = (hasIndices && hasNames)

lemma tablesFrom_has (n : ℕ) (hasIndices hasNames : Bool) :
    (tablesFrom n hasIndices hasNames).Has hasIndices hasNames := by
  cases hasIndices <;> cases hasNames <;> exact ⟨rfl, rfl, rfl⟩

lemma fileNamed_eq {p key q : Bytes} (hn : NextName i (some p) key (some q)) (idx : ℤ) (v : Value) :
    fileNamed idx i p ⟨v :: S, H, R⟩ = if key = [] then .ok (⟨v :: S, H, R⟩, q) else
      (valid ((State.mk (v :: v :: S) H R).setField idx key)).map fun L => (L, q) := by
  cases hn with
  | whole => rfl
  | group hr =>
    rw [fileNamed, if_pos (Nat.succ_pos _), hr]
    by_cases hk : key = []
    · subst hk
      rfl
    · show (if key = [] then _ else _) = _
      rw [if_neg hk, if_neg hk]
      rfl

lemma fileString_spec (h : Filed base ts fields mt st H) {names q : Option Bytes} {key : Bytes}
    (hn : NextName i names key q) (hg : ts.groups.isSome = names.isSome) (s : Bytes) : ∃ H',
      fileString i names ⟨.string s :: (ts.stack ++ S), H, R⟩ = .ok (⟨.string s :: (ts.stack ++ S), H', R⟩, q) ∧
        Filed base ts fields mt { st with groups := st.groups.setNamed key s } H' := by
  cases names with
  | none =>
    cases hn
    exact ⟨H, rfl, h⟩
  | some p =>
    obtain ⟨q, rfl⟩ : ∃ q', q = some q' := by cases hn <;> exact ⟨_, rfl⟩
    have hnamed := fileNamed_eq (S := ts.stack ++ S) (H := H) (R := R) hn (-4) (.string s)
    by_cases hk : key = []
    · subst hk
      refine ⟨H, ?_, h⟩
      rw [fileString, hnamed]
      rfl
    · obtain ⟨g, hgs⟩ := Option.isSome_iff_exists.mp hg
      obtain ⟨t, ht, hmeta, hf⟩ := h.fileGroup hgs key s
      refine ⟨_, ?_, by rwa [Table.setNamed, if_neg hk]⟩
      have hat : (State.mk (.string s :: .string s :: (ts.stack ++ S)) H R).index (-4) = some (.table g) := by
        rw [Tables.stack, Tables.refs, hgs]
        rfl
      rw [if_neg hk, setField_eq hat ht (isRaw_of_none hmeta)] at hnamed
      rw [fileString, hnamed]
      rfl

lemma pushPair_eq (p : ℕ × ℕ) :
    pushPair p ⟨S, H, R⟩ = .ok ⟨.table H.length :: S, H ++ [pairTable p], R⟩ := by
  have hset (n : ℤ) (t : LuaTable) (v : Value) :
      (State.mk (v :: .table H.length :: S) (H ++ [t]) R).rawSetI (-2) n =
        some ⟨.table H.length :: S, H ++ [t.setItem n v], R⟩ := by
    rw [rawSetI_eq rfl (getElem?_behind H [t] 0)]
    exact congrArg (fun H' => some (State.mk _ H' R)) (set_behind H [t] 0 _)
  simp only [pushPair, State.createTable, State.push, hset, valid, bind, Except.bind]
  rfl

lemma filePair_spec (h : Filed base ts fields mt st H) {names q : Option Bytes} {key : Bytes}
    (hn : NextName i names key q) (hts : ts.Has true names.isSome) (hi : i = st.pairs.length)
    (g : GroupReport) (s : Bytes) :
    ∃ H', filePair i g names ⟨.string s :: (ts.stack ++ S), H, R⟩ = .ok ⟨.string s :: (ts.stack ++ S), H', R⟩ ∧
      Filed base ts fields mt
        { st with pairs := st.pairs ++ [g.pair], indexGroups := st.indexGroups.setNamed key g.pair } H' := by
  obtain ⟨r, hr⟩ := Option.isSome_iff_exists.mp hts.indices
  have hpair : IsPair ts (H ++ [pairTable g.pair]) (.table H.length) g.pair :=
    ⟨H.length, rfl, fun hm => lt_irrefl _ (h.fresh _ hm).2, by simp⟩
  cases names with
  | none =>
    cases hn
    have hgs : ts.groups = none := by simpa using hts.groups
    obtain ⟨t, ht, hf⟩ := h.append.filePair hpair hr
    rw [← hi] at hf
    refine ⟨_, ?_, hf⟩
    have hat : (State.mk (.table H.length :: .string s :: (ts.stack ++ S)) (H ++ [pairTable g.pair]) R).index (-4) =
        some (.table r) := by
      rw [Tables.stack, Tables.refs, hgs, hr]
      rfl
    rw [filePair, pushPair_eq]
    exact congrArg valid (rawSetI_eq hat ht _)
  | some p =>
    obtain ⟨q, rfl⟩ : ∃ q', q = some q' := by cases hn <;> exact ⟨_, rfl⟩
    obtain ⟨gr, hgs⟩ := Option.isSome_iff_exists.mp hts.groups
    obtain ⟨ig, hig⟩ := Option.isSome_iff_exists.mp hts.indexGroups
    have hnamed := fileNamed_eq (S := .string s :: (ts.stack ++ S)) (H := H ++ [pairTable g.pair]) (R := R) hn (-7)
      (.table H.length)
    have hstep : ∃ H', fileNamed (-7) i p
          ⟨.table H.length :: .string s :: (ts.stack ++ S), H ++ [pairTable g.pair], R⟩ =
        .ok (⟨.table H.length :: .string s :: (ts.stack ++ S), H', R⟩, q) ∧ IsPair ts H' (.table H.length) g.pair ∧
          Filed base ts fields mt { st with indexGroups := st.indexGroups.setNamed key g.pair } H' := by
      by_cases hk : key = []
      · subst hk
        exact ⟨_, hnamed, hpair, h.append⟩
      · obtain ⟨t, ht, hmeta, hf⟩ := h.append.fileIndexGroup hpair hig key
        refine ⟨_, ?_, hpair.set (mem_refs_indexGroups hig), by rwa [Table.setNamed, if_neg hk]⟩
        have hat : (State.mk (.table H.length :: .table H.length :: .string s :: (ts.stack ++ S))
            (H ++ [pairTable g.pair]) R).index (-7) = some (.table ig) := by
          rw [Tables.stack, Tables.refs, hgs, hr, hig]
          rfl
        rw [hnamed, if_neg hk, setField_eq hat ht (isRaw_of_none hmeta)]
        rfl
    obtain ⟨H', hfile, hpair', hf⟩ := hstep
    obtain ⟨t, ht, hf'⟩ := hf.filePair hpair' hr
    rw [← hi] at hf'
    refine ⟨_, ?_, hf'⟩
    have hat : (State.mk (.table H.length :: .string s :: (ts.stack ++ S)) H' R).index (-5) = some (.table r) := by
      rw [Tables.stack, Tables.refs, hgs, hr]
      rfl
    rw [filePair, pushPair_eq]
    show (fileNamed (-7) i p _ >>= fun L => valid (L.1.rawSetI (-5) i)) = _
    rw [hfile]
    exact congrArg valid (rawSetI_eq hat ht _)

variable {bc : Bytecode} {input : JsString} {capture : List (Option ℕ)}

lemma Filed.withoutPairs (h : Filed base ts fields mt st H) (hi : ts.indices = none) (hig : ts.indexGroups = none)
    (pairs : List (ℕ × ℕ)) (indexGroups : Table (ℕ × ℕ)) :
    Filed base ts fields mt { st with pairs := pairs, indexGroups := indexGroups } H where
  nodup := h.nodup
  below := h.below
  fresh := h.fresh
  matched := h.matched
  groups := h.groups
  indices r hr := by cases hi.symm.trans hr
  indexGroups r hr := by cases hig.symm.trans hr

lemma stackTurn_spec (h : Filed base ts fields mt st H) (hts : ts.Has (bc.hasFlag lreFlagIndices) st.groupNames.isSome)
    (hc : i = st.captures.length) (hp : i = st.pairs.length) {st' : CaptureState}
    (hs : captureStep input capture i st = .ok st') : ∃ H',
      stackTurn bc input capture i st.groupNames ⟨ts.stack ++ S, H, R⟩ =
        .ok (⟨ts.stack ++ S, H', R⟩, st'.groupNames) ∧ Filed base ts fields mt st' H' := by
  obtain ⟨key, g, q, hg, hn, rfl⟩ := captureStep_ok_iff.mp hs
  have hpairs : ∃ H₁, (if bc.hasFlag lreFlagIndices then
      filePair i g st.groupNames ⟨.string g.str :: (ts.stack ++ S), H, R⟩ else
      pure ⟨.string g.str :: (ts.stack ++ S), H, R⟩) = .ok ⟨.string g.str :: (ts.stack ++ S), H₁, R⟩ ∧
        Filed base ts fields mt
          { st with pairs := st.pairs ++ [g.pair], indexGroups := st.indexGroups.setNamed key g.pair } H₁ := by
    cases hd : bc.hasFlag lreFlagIndices with
    | true => exact filePair_spec h hn (hd ▸ hts) hp g g.str
    | false =>
      rw [hd] at hts
      exact ⟨H, rfl, h.withoutPairs (by simpa using hts.indices) (by simpa using hts.indexGroups) _ _⟩
  obtain ⟨H₁, hfile, h₁⟩ := hpairs
  obtain ⟨H₂, hstring, h₂⟩ := fileString_spec (S := S) (R := R) h₁ hn hts.groups g.str
  obtain ⟨t, ht, h₃⟩ := h₂.fileCapture g.str
  refine ⟨_, ?_, ⟨h₃.nodup, h₃.below, h₃.fresh, h₃.matched, h₃.groups, h₃.indices, h₃.indexGroups⟩⟩
  have hat : (State.mk (.string g.str :: (ts.stack ++ S)) H₂ R).index (-2) = some (.table ts.matched) := rfl
  rw [stackTurn, hg]
  show ((if bc.hasFlag lreFlagIndices then filePair i g st.groupNames _ else pure _) >>= fun L =>
    fileString i st.groupNames L >>= fun r => valid (r.1.rawSetI (-2) i) >>= fun L => pure (L, r.2)) = _
  rw [State.push, hfile]
  show (fileString i st.groupNames _ >>= fun r => valid (r.1.rawSetI (-2) i) >>= fun L => pure (L, r.2)) = _
  rw [hstring]
  show (valid (State.rawSetI _ (-2) i) >>= fun L => pure (L, q)) = _
  rw [rawSetI_eq hat ht, hc]
  rfl

lemma fileNamed_error {p : Bytes} {e : Failure} (hi : i > 0) (he : readGroupName p = .error e) (idx : ℤ) (L : State) :
    fileNamed idx i p L = .error e := by
  rw [fileNamed, if_pos hi, he]
  rfl

lemma stackTurn_error {e : Failure} (he : captureStep input capture i st = .error e) :
    stackTurn bc input capture i st.groupNames ⟨S, H, R⟩ = .error e := by
  rw [stackTurn]
  rcases except_bind_error_iff.mp he with hg | ⟨g, hg, he⟩
  · rw [hg]
    rfl
  rcases except_bind_error_iff.mp he with hn | ⟨st', -, he⟩
  · obtain ⟨p, hp, hi, hr⟩ : ∃ p, st.groupNames = some p ∧ i > 0 ∧ readGroupName p = .error e := by
      rw [nameGroup] at hn
      cases hp : st.groupNames with
      | none =>
        simp only [hp] at hn
        cases hn
      | some p =>
        simp only [hp] at hn
        split at hn
        · next hi =>
          rcases except_bind_error_iff.mp hn with hr | ⟨⟨key, q⟩, -, hn⟩
          · exact ⟨p, rfl, hi, hr⟩
          · by_cases hk : key = []
            · simp [hk, pure, Except.pure] at hn
            · simp [hk, pure, Except.pure] at hn
        · cases hn
    have hstring (L : State) : fileString i (some p) L = .error e := by
      rw [fileString, fileNamed_error hi hr]
      rfl
    rw [hg, hp]
    show ((if bc.hasFlag lreFlagIndices then filePair i g (some p) _ else pure _) >>= fun L =>
      fileString i (some p) L >>= fun r => valid (r.1.rawSetI (-2) i) >>= fun L => pure (L, r.2)) = _
    split
    · rw [State.push, filePair, pushPair_eq]
      show ((fileNamed (-7) i p _ >>= fun r => valid (r.1.rawSetI (-5) i)) >>= _) = _
      rw [fileNamed_error hi hr]
      rfl
    · show (fileString i (some p) _ >>= _) = _
      rw [hstring]
      rfl
  · cases he

lemma captureStep_counts {st' : CaptureState} (hs : captureStep input capture i st = .ok st') :
    st'.captures.length = st.captures.length + 1 ∧ st'.pairs.length = st.pairs.length + 1 ∧
      st'.groupNames.isSome = st.groupNames.isSome := by
  obtain ⟨key, g, q, -, hn, rfl⟩ := captureStep_ok_iff.mp hs
  refine ⟨by simp, by simp, ?_⟩
  generalize st.groupNames = p at hn
  cases hn <;> rfl

lemma stackLoop_spec {n : ℕ} (h : Filed base ts fields mt st H)
    (hts : ts.Has (bc.hasFlag lreFlagIndices) st.groupNames.isSome) (hc : i = st.captures.length)
    (hp : i = st.pairs.length) {st' : CaptureState} (hs : captureLoop input capture n i st = .ok st') : ∃ H',
      stackLoop bc input capture n i st.groupNames ⟨ts.stack ++ S, H, R⟩ =
        .ok (⟨ts.stack ++ S, H', R⟩, st'.groupNames) ∧ Filed base ts fields mt st' H' := by
  induction n generalizing i st H with
  | zero =>
    obtain rfl := Except.ok.inj hs
    exact ⟨H, rfl, h⟩
  | succ n ih =>
    obtain ⟨st₁, hstep, hs⟩ := except_bind_ok_iff.mp hs
    obtain ⟨H₁, hturn, h₁⟩ := stackTurn_spec (S := S) (R := R) h hts hc hp hstep
    obtain ⟨hc₁, hp₁, hn₁⟩ := captureStep_counts hstep
    obtain ⟨H₂, hloop, h₂⟩ := ih h₁ (hn₁ ▸ hts) (by omega) (by omega) hs
    refine ⟨H₂, ?_, h₂⟩
    rw [stackLoop, hturn]
    exact hloop

lemma stackLoop_error {n : ℕ} (h : Filed base ts fields mt st H)
    (hts : ts.Has (bc.hasFlag lreFlagIndices) st.groupNames.isSome) (hc : i = st.captures.length)
    (hp : i = st.pairs.length) {e : Failure} (hs : captureLoop input capture n i st = .error e) :
    stackLoop bc input capture n i st.groupNames ⟨ts.stack ++ S, H, R⟩ = .error e := by
  induction n generalizing i st H with
  | zero => cases hs
  | succ n ih =>
    rw [stackLoop]
    rcases except_bind_error_iff.mp hs with hs | ⟨st₁, hstep, hs⟩
    · rw [stackTurn_error hs]
      rfl
    · obtain ⟨H₁, hturn, h₁⟩ := stackTurn_spec (S := S) (R := R) h hts hc hp hstep
      obtain ⟨hc₁, hp₁, hn₁⟩ := captureStep_counts hstep
      rw [hturn]
      exact ih h₁ (hn₁ ▸ hts) (by omega) (by omega) hs

end Turn

section Return

variable {bc : Bytecode} {input : JsString} {capture : List (Option ℕ)} {S : List Value} {H : List LuaTable}
variable {R : Name → Value} {mt : ℕ}

def tablesOf (bc : Bytecode) (n : ℕ) : Tables := tablesFrom n (bc.hasFlag lreFlagIndices) bc.lreGetGroupnames.isSome

def CaptureState.start (bc : Bytecode) : CaptureState := ⟨bc.lreGetGroupnames, [], [], [], []⟩

def Match.filed (m : Match) : CaptureState where
  groupNames := none
  captures := m.captures
  groups := m.groups.getD []
  pairs := (m.indices.map MatchIndices.pairs).getD []
  indexGroups := (m.indices.bind MatchIndices.groups).getD []

lemma filed_start (index : ℕ) : Filed H (tablesOf bc H.length)
    (matchFields (cString input.bstr) bc.captureCount index (tablesOf bc H.length)) (some mt) (.start bc)
    (H ++ createdTables (matchTable bc input index mt (tablesOf bc H.length)) (tablesOf bc H.length)) := by
  rw [tablesOf]
  generalize bc.hasFlag lreFlagIndices = hasIndices
  generalize bc.lreGetGroupnames.isSome = hasNames
  have hget (N : List LuaTable) (k : ℕ) : (H ++ N)[H.length + k]? = N[k]? := getElem?_behind H N k
  constructor
  · cases hasIndices <;> cases hasNames <;> simp [tablesFrom, Tables.refs]
  · intro r hr
    rw [List.getElem?_append_left hr]
  · cases hasIndices <;> cases hasNames <;> simp [tablesFrom, Tables.refs, createdTables]
  · exact hget _ 0
  · intro r hr
    cases hasIndices <;> cases hasNames
    · cases hr
    · obtain rfl := Option.some.inj hr
      exact hget _ 1
    · cases hr
    · obtain rfl := Option.some.inj hr
      exact hget _ 3
  · intro r hr
    cases hasIndices
    · cases hr
    · obtain rfl := Option.some.inj hr
      exact ⟨[], hget _ 1, .nil⟩
  · intro r hr
    cases hasIndices <;> cases hasNames
    · cases hr
    · cases hr
    · cases hr
    · obtain rfl := Option.some.inj hr
      exact ⟨[], hget _ 2, .nil⟩

/-- `exec` builds its match object on the stack: in front of every turn of the loop and behind the last the same tables
lie on what was there before, they hold the groups of the turns so far and nothing else, and the table on top is
the match. -/
structure BuiltOnStack (bc : Bytecode) (input : JsString) (capture : List (Option ℕ)) (S : List Value)
    (H : List LuaTable) (R : Name → Value) (mt : ℕ) : Prop where
  turn : ∀ k index st, matchIndex input (slot capture 0) = .ok index →
    captureLoop input capture k 0 (.start bc) = .ok st → ∃ H',
      (pushTables bc input capture ⟨S, H, R⟩ >>= stackLoop bc input capture k 0 bc.lreGetGroupnames) =
        .ok (⟨(tablesOf bc H.length).stack ++ S, H', R⟩, st.groupNames) ∧
      Filed H (tablesOf bc H.length) (matchFields (cString input.bstr) bc.captureCount index (tablesOf bc H.length))
        (some mt) st H'
  result : ∀ m, buildMatch bc input capture = .ok m → ∃ H',
    returnMatch bc input capture ⟨S, H, R⟩ =
      .ok (⟨(tablesOf bc H.length).stack ++ S, H', R⟩, .table (tablesOf bc H.length).matched) ∧
    (tablesOf bc H.length).Has m.indices.isSome m.groups.isSome ∧
    Filed H (tablesOf bc H.length) (matchFields m.input m.captureCount m.index (tablesOf bc H.length)) (some mt)
      m.filed H' ∧
    m.captures.length = bc.captureCount ∧ ∀ mi, m.indices = some mi → mi.pairs.length = bc.captureCount
  error : ∀ e, buildMatch bc input capture = .error e → returnMatch bc input capture ⟨S, H, R⟩ = .error e

def loopStart (bc : Bytecode) (input : JsString) (index mt : ℕ) (S : List Value) (H : List LuaTable)
    (R : Name → Value) :
    State where
  stack := (tablesOf bc H.length).stack ++ S
  heap := H ++ createdTables (matchTable bc input index mt (tablesOf bc H.length)) (tablesOf bc H.length)
  registry := R

lemma pushTables_start (h : Registered mt H R) {index : ℕ} (hi : matchIndex input (slot capture 0) = .ok index) :
    pushTables bc input capture ⟨S, H, R⟩ = .ok (loopStart bc input index mt S H R) := by
  rw [pushTables_eq h, hi]
  rfl

lemma stackLoop_start {k : ℕ} (index mt : ℕ) {st : CaptureState}
    (hs : captureLoop input capture k 0 (.start bc) = .ok st) :
    ∃ H', stackLoop bc input capture k 0 bc.lreGetGroupnames (loopStart bc input index mt S H R) =
        .ok (⟨(tablesOf bc H.length).stack ++ S, H', R⟩, st.groupNames) ∧
      Filed H (tablesOf bc H.length) (matchFields (cString input.bstr) bc.captureCount index (tablesOf bc H.length))
        (some mt) st H' :=
  stackLoop_spec (filed_start index) (tablesFrom_has _ _ _) rfl rfl hs

lemma stackLoop_start_error {k : ℕ} (index mt : ℕ) {e : Failure}
    (hs : captureLoop input capture k 0 (.start bc) = .error e) :
    stackLoop bc input capture k 0 bc.lreGetGroupnames (loopStart bc input index mt S H R) = .error e :=
  stackLoop_error (filed_start index : Filed H _ _ (some mt) _ _) (tablesFrom_has _ _ _) rfl rfl hs

lemma matchOf_has (index : ℕ) (ts : List (Bytes × GroupReport)) (n : ℕ) :
    (tablesOf bc n).Has (matchOf bc input index ts).indices.isSome (matchOf bc input index ts).groups.isSome := by
  have hi : (matchOf bc input index ts).indices.isSome = bc.hasFlag lreFlagIndices := by
    cases hd : bc.hasFlag lreFlagIndices <;> simp [matchOf, hd]
  have hg : (matchOf bc input index ts).groups.isSome = bc.lreGetGroupnames.isSome := by
    rw [matchOf]
    cases bc.lreGetGroupnames <;> rfl
  rw [hi, hg]
  exact tablesFrom_has _ _ _

lemma Filed.matchOf {index : ℕ} {ts : List (Bytes × GroupReport)} {r : Option Bytes} {H' : List LuaTable}
    (h : Filed H (tablesOf bc H.length) (matchFields (cString input.bstr) bc.captureCount index (tablesOf bc H.length))
      (some mt) ⟨r, [] ++ ts.map fun e => e.2.str, fileGroups GroupReport.str [] ts, [] ++ ts.map fun e => e.2.pair,
        fileGroups GroupReport.pair [] ts⟩ H') :
    Filed H (tablesOf bc H.length)
      (matchFields (matchOf bc input index ts).input (matchOf bc input index ts).captureCount
        (matchOf bc input index ts).index (tablesOf bc H.length)) (some mt) (matchOf bc input index ts).filed H' := by
  obtain ⟨hgs, his, higs⟩ := tablesFrom_has H.length (bc.hasFlag lreFlagIndices) bc.lreGetGroupnames.isSome
  refine ⟨h.nodup, h.below, h.fresh, h.matched, ?_, ?_, ?_⟩
  · intro g hg
    have hn : bc.lreGetGroupnames.isSome = true := hgs.symm.trans (Option.isSome_iff_exists.mpr ⟨g, hg⟩)
    have hfiled : (Jsregexp.matchOf bc input index ts).filed.groups = fileGroups GroupReport.str [] ts := by
      simp [Match.filed, Jsregexp.matchOf, hn]
    rw [hfiled]
    exact h.groups g hg
  · intro i hi
    have hd : bc.hasFlag lreFlagIndices = true := his.symm.trans (Option.isSome_iff_exists.mpr ⟨i, hi⟩)
    have hfiled : (Jsregexp.matchOf bc input index ts).filed.pairs = ts.map fun e => e.2.pair := by
      simp [Match.filed, Jsregexp.matchOf, hd]
    rw [hfiled]
    exact h.indices i hi
  · intro ig hig
    have hboth := higs.symm.trans (Option.isSome_iff_exists.mpr ⟨ig, hig⟩)
    rw [Bool.and_eq_true] at hboth
    have hfiled : (Jsregexp.matchOf bc input index ts).filed.indexGroups = fileGroups GroupReport.pair [] ts := by
      simp [Match.filed, Jsregexp.matchOf, hboth.1, hboth.2]
    rw [hfiled]
    exact h.indexGroups ig hig

theorem exec_stack (h : Registered mt H R) : BuiltOnStack bc input capture S H R mt where
  turn k index st hi hs := by
    obtain ⟨H', hloop, hf⟩ := stackLoop_start (S := S) (H := H) (R := R) index mt hs
    refine ⟨H', ?_, hf⟩
    rw [pushTables_start h hi]
    exact hloop
  result m hm := by
    obtain ⟨index, ts, r, hi, hl, ht, rfl⟩ := buildMatch_ok_iff.mp hm
    have hs : captureLoop input capture bc.captureCount 0 (.start bc) = .ok _ :=
      captureLoop_ok_iff.mpr ⟨ts, r, hl, ht, rfl⟩
    obtain ⟨H', hloop, hf⟩ := stackLoop_start (S := S) (H := H) (R := R) index mt hs
    refine ⟨H', ?_, matchOf_has index ts H.length, hf.matchOf, ?_, ?_⟩
    · rw [returnMatch, pushTables_start h hi]
      show (stackLoop bc input capture bc.captureCount 0 bc.lreGetGroupnames _ >>= _) = _
      rw [hloop]
      rfl
    · rw [matchOf, List.length_map, hl]
    · intro mi hmi
      rw [matchOf] at hmi
      cases hd : bc.hasFlag lreFlagIndices with
      | false => simp [hd] at hmi
      | true =>
        simp only [hd, if_true, Option.some.injEq] at hmi
        rw [← hmi, List.length_map, hl]
  error e he := by
    rw [returnMatch]
    rcases except_bind_error_iff.mp he with hi | ⟨index, hi, he⟩
    · rw [pushTables_eq h, hi]
      rfl
    · rcases except_bind_error_iff.mp he with hs | ⟨st, -, he⟩
      · rw [pushTables_start h hi]
        show (stackLoop bc input capture bc.captureCount 0 bc.lreGetGroupnames _ >>= _) = _
        have hloop := stackLoop_start_error (S := S) (H := H) (R := R) index mt hs
        exact congrArg (· >>= _) hloop
      · cases he

def namedIndicesBc : Bytecode where
  flags := lreFlagIndices ||| lreFlagNamedGroups
  captureCount := 2
  registerCount := 0
  code := [.split false 6, .any, .goto (-11), .saveStart 0, .saveStart 1, .char false 0x78, .saveEnd 1, .saveEnd 0,
    .matched]
  groupNames := [0x61, 0, 0]

def xSubject : JsString := ⟨false, 1, [0x78], 1, [], [], [0x78], 16⟩

theorem exec_stack_named : ∃ L, openMatchMeta 0 ⟨[], [], fun _ => .nil⟩ = .ok L ∧ ∃ S H' R r,
    returnMatch namedIndicesBc xSubject [some 0, some 1, some 0, some 1]
      ⟨[.userdata 1, .userdata 0], L.heap, L.registry⟩ = .ok (⟨S, H', R⟩, .table 1) ∧
    (H'[1]?.map fun t => t.names (bytesOf "groups")) = some (.table 4) ∧
    (H'[4]?.map fun t => t.names (bytesOf "a")) = some (.string (bytesOf "x")) ∧
    (H'[1]?.map fun t => t.names (bytesOf "indices")) = some (.table 2) ∧
    (H'[2]?.map fun t => t.names (bytesOf "groups")) = some (.table 3) ∧
    (H'[3]?.map fun t => t.names (bytesOf "a")) = some (.table r) ∧ H'[r]? = some (pairTable (1, 1)) := by
  have hopen : ∃ L, openMatchMeta 0 ⟨[], [], fun _ => .nil⟩ = .ok L ∧ L.heap.length = 1 := ⟨_, rfl, rfl⟩
  obtain ⟨L, hL, hone⟩ := hopen
  have hbuilt : BuiltOnStack namedIndicesBc xSubject [some 0, some 1, some 0, some 1] [.userdata 1, .userdata 0]
      L.heap L.registry 0 := exec_stack (registered_open (H := []) hL)
  obtain ⟨H', hreturn, -, hfiled, -⟩ := hbuilt.result _ rfl
  rw [hone] at hreturn hfiled
  obtain ⟨items, hindices, -⟩ := hfiled.indices 2 rfl
  obtain ⟨entries, hgroups, hentries⟩ := hfiled.indexGroups 3 rfl
  have hentry : List.Forall₂ (fun e e' => e.1 = e'.1 ∧ IsPair (tablesOf namedIndicesBc 1) H' e.2 e'.2) entries
      [(bytesOf "a", (1, 1))] := hentries
  obtain ⟨⟨key, v⟩, rfl⟩ : ∃ e, entries = [e] := List.length_eq_one_iff.mp hentry.length_eq
  obtain ⟨⟨hkey, r, hv, -, hpair⟩, -⟩ := List.forall₂_cons.mp hentry
  dsimp only at hkey hv
  subst hkey hv
  refine ⟨L, hL, _, H', _, r, hreturn, ?_, ?_, ?_, ?_, ?_, hpair⟩
  · have hmatched : H'[1]? = _ := hfiled.matched
    rw [hmatched]
    rfl
  · rw [hfiled.groups 4 rfl]
    rfl
  · have hmatched : H'[1]? = _ := hfiled.matched
    rw [hmatched]
    rfl
  · rw [hindices]
    rfl
  · rw [hgroups]
    rfl

end Return

end Jsregexp
