import Jsregexp.ExecWidth
import Jsregexp.GroupNames

namespace Jsregexp

section Keys

variable {n : ℕ} {p q : Bytes}

def nameKeys : ℕ → Bytes → List Bytes
  | 0, _ => []
  | n + 1, p => cString p :: nameKeys n (p.drop ((cString p).length + 1))

lemma Turns.keys {js : JsString} {capture : List (Option ℕ)} {i : ℕ} {r : Option Bytes}
    {ts : List (Bytes × GroupReport)} (h : Turns js capture (i + 1) (some p) ts r) :
    ts.map Prod.fst = nameKeys ts.length p := by
  generalize hj : i + 1 = j at h
  generalize ho : some p = o at h
  induction h generalizing i p with
  | nil => rfl
  | @cons j o key o' g ts r hg hn ht ih =>
    subst hj ho
    cases hn with
    | group hr =>
      rw [readGroupName] at hr
      split at hr
      · obtain ⟨rfl, rfl⟩ := Prod.mk.inj (Except.ok.inj hr)
        rw [List.map_cons, List.length_cons, nameKeys, ih rfl rfl]
      · cases hr

lemma nameKeys_append {name : Bytes} (hz : 0 ∉ name) : nameKeys (n + 1) (name ++ 0 :: q) = name :: nameKeys n q := by
  rw [nameKeys, cString_append_zero hz]
  simp

lemma nameKeys_zeros {m : ℕ} (h : n ≤ m) : nameKeys n (List.replicate m 0 ++ q) = List.replicate n [] := by
  induction n generalizing m with
  | zero => rfl
  | succ n ih =>
    obtain ⟨m, rfl⟩ : ∃ k, m = k + 1 := ⟨m - 1, by omega⟩
    have hfirst : nameKeys (n + 1) ([] ++ 0 :: (List.replicate m 0 ++ q)) =
        [] :: nameKeys n (List.replicate m 0 ++ q) :=
      nameKeys_append (by simp)
    rw [List.replicate_succ, List.cons_append]
    exact hfirst.trans (by rw [ih (by omega), List.replicate_succ])

lemma nameKeys_take {m : ℕ} (h : m ≤ n) (p : Bytes) : (nameKeys n p).take m = nameKeys m p := by
  induction m generalizing n p with
  | zero => rfl
  | succ m ih =>
    obtain ⟨n, rfl⟩ : ∃ k, n = k + 1 := ⟨n - 1, by omega⟩
    rw [nameKeys, List.take_succ_cons, ih (by omega), nameKeys]

lemma nameKeys_zeros_get {m i : ℕ} (hn : i < n) (hm : i < m) :
    (nameKeys n (List.replicate m 0 ++ q))[i]? = some [] := by
  have hkeys : (nameKeys n (List.replicate m 0 ++ q)).take (i + 1) = List.replicate (i + 1) [] :=
    (nameKeys_take hn _).trans (nameKeys_zeros hm)
  have hget := congrArg (·[i]?) hkeys
  simpa [List.getElem?_take] using hget

lemma nameKeys_length (n : ℕ) (p : Bytes) : (nameKeys n p).length = n := by
  induction n generalizing p with
  | zero => rfl
  | succ n ih => rw [nameKeys, List.length_cons, ih]

lemma nameTable_unnamed {gs : List (Bytes × UInt8)} (h : ∀ g ∈ gs, g = ([], 0)) :
    nameTable gs = List.replicate (2 * gs.length) 0 := by
  induction gs with
  | nil => rfl
  | cons g gs ih =>
    rw [nameTable_cons, ih fun g hg => h g (List.mem_cons_of_mem _ hg), h g List.mem_cons_self, List.length_cons,
      Nat.mul_succ, List.replicate_succ, List.replicate_succ]
    rfl

lemma nameTable_append (gs gs' : List (Bytes × UInt8)) : nameTable (gs ++ gs') = nameTable gs ++ nameTable gs' :=
  List.flatMap_append

end Keys

section Fields

variable {β : Type} {f : GroupReport → β} {t : Table β} {ts : List (Bytes × GroupReport)} {key : Bytes}

lemma lookup_filter_ne {key' : Bytes} (hne : key ≠ key') (t : Table β) :
    (t.filter fun e => e.1 ≠ key).lookup key' = t.lookup key' := by
  induction t with
  | nil => rfl
  | cons e t ih =>
    by_cases he : e.1 = key
    · have hkey : (key' == e.1) = false := by simpa [he] using hne.symm
      rw [List.filter_cons_of_neg (by simp [he]), ih, List.lookup_cons, hkey]
    · rw [List.filter_cons_of_pos (by simp [he]), List.lookup_cons, List.lookup_cons, ih]

lemma getField_setField (t : Table β) (key key' : Bytes) (v : β) :
    (t.setField key v).getField key' = if key = key' then some v else t.getField key' := by
  rw [Table.getField, Table.setField, List.lookup_cons]
  by_cases h : key = key'
  · rw [if_pos h, h, beq_self_eq_true]
  · have hkey : (key' == key) = false := by simpa using Ne.symm h
    rw [if_neg h, hkey, Table.getField]
    exact lookup_filter_ne h t

lemma getField_setNamed (t : Table β) (hkey : key ≠ []) (key' : Bytes) (v : β) :
    (t.setNamed key' v).getField key = if key' = key then some v else t.getField key := by
  rw [Table.setNamed]
  split
  · next h => rw [if_neg (h ▸ hkey.symm)]
  · exact getField_setField t key' key v

lemma fileGroups_unnamed (h : ∀ e ∈ ts, e.1 = []) (t : Table β) : fileGroups f t ts = t := by
  induction ts generalizing t with
  | nil => rfl
  | cons e ts ih =>
    have he : t.setNamed e.1 (f e.2) = t := if_pos (h e List.mem_cons_self)
    rw [fileGroups, List.foldl_cons, he]
    exact ih (fun e he => h e (List.mem_cons_of_mem _ he)) t

lemma mem_of_fileGroups (hkey : key ≠ []) {v : β} (h : (fileGroups f t ts).getField key = some v) :
    (∃ e ∈ ts, e.1 = key ∧ v = f e.2) ∨ t.getField key = some v := by
  induction ts generalizing t with
  | nil => exact .inr h
  | cons e ts ih =>
    obtain ⟨e', he', hv⟩ | ht := ih h
    · exact .inl ⟨e', List.mem_cons_of_mem _ he', hv⟩
    · rw [getField_setNamed t hkey] at ht
      split at ht
      · next hek => exact .inl ⟨e, List.mem_cons_self, hek, (Option.some.inj ht).symm⟩
      · exact .inr ht

end Fields

section Property

def GroupNamed (names : List Bytes) (i : ℕ) (name : Bytes) : Prop := name ≠ [] ∧ ([] :: names)[i]? = some name

/-- Group `i` is the one that the name means: no other group has the name, or of those that have it only `i` took
part. -/
def StandsFor (names : List Bytes) (took : ℕ → Prop) (i : ℕ) (name : Bytes) : Prop :=
  GroupNamed names i name ∧
    ((∀ j, GroupNamed names j name → j = i) ∨ (took i ∧ ∀ j, GroupNamed names j name → took j → j = i))

structure FiledByName {β : Type} (names : List Bytes) (took : ℕ → Prop) (values : List β) (t : Table β) : Prop where
  keys : ∀ key, (∃ v, t.getField key = some v) ↔ ∃ i, GroupNamed names i key
  fields : ∀ i name, StandsFor names took i name → t.getField name = values[i]?

structure GroupsFiled (names : List Bytes) (took : ℕ → Prop) (m : Match) : Prop where
  groups : ∃ t, m.groups = some t ∧ FiledByName names took m.captures t
  indices : ∀ mi, m.indices = some mi → ∃ t, mi.groups = some t ∧ FiledByName names took mi.pairs t

/-- Every successful `exec` files the groups under their names, whatever captures the engine returns. -/
def NamesAligned (re : RegExp) (names : List Bytes) : Prop :=
  ∀ lreExec : Engine, lreExec.Captures re.bc → ∀ addr str js n re' m, jsstringNew addr str = .ok js →
    regexpExec lreExec { re with lastIndex := n } js = ⟨re', .ok (some m)⟩ →
      GroupsFiled names (TookPart lreExec { re with lastIndex := n } js) m

/-- Of the groups, each with its scope, the first and no other has a name; if there are others, the name is in front
of every `|`, up to a multiple of 256. -/
def OnlyFirstNamed (groups : List (Bytes × ℕ)) : Prop :=
  ∃ name scope rest, groups = (name, scope) :: rest ∧ name ≠ [] ∧ (∀ g ∈ rest, g.1 = []) ∧ (rest = [] ∨ scope = 0)

variable {names : List Bytes} {name : Bytes} {i : ℕ}

lemma GroupNamed.pos (h : GroupNamed names i name) : i ≠ 0 := by
  rintro rfl
  exact h.1 (Option.some.inj h.2).symm

lemma groupNamed_first {rest : List Bytes} (hname : name ≠ []) (hrest : ∀ r ∈ rest, r = []) {key : Bytes} :
    GroupNamed (name :: rest) i key ↔ i = 1 ∧ key = name := by
  constructor
  · rintro ⟨hkey, hi⟩
    rcases i with _ | _ | i
    · exact absurd (Option.some.inj hi).symm hkey
    · exact ⟨rfl, (Option.some.inj hi).symm⟩
    · exact absurd (hrest _ (List.mem_of_getElem? hi)) hkey
  · rintro ⟨rfl, rfl⟩
    exact ⟨hname, rfl⟩

end Property

section Walked

variable {gs : List (Bytes × UInt8)} {bc : Bytecode} {js : JsString} {capture : List (Option ℕ)} {m : Match}

lemma buildMatch_walk (hcount : bc.captureCount = gs.length + 1) (htable : bc.lreGetGroupnames = some (nameTable gs))
    (hm : buildMatch bc js capture = .ok m) : ∃ index ts, m = matchOf bc js index ts ∧
      ts.map Prod.fst = [] :: nameKeys gs.length (nameTable gs) ∧
      ∀ i e, ts[i]? = some e → reportGroup js (slot capture (2 * i)) (slot capture (2 * i + 1)) = .ok e.2 := by
  obtain ⟨index, ts, r, -, hlen, hts, rfl⟩ := buildMatch_ok_iff.mp hm
  refine ⟨index, ts, rfl, ?_, ?_⟩
  · rw [htable] at hts
    cases hts with
    | nil =>
      rw [hcount] at hlen
      cases hlen
    | @cons _ _ key q g ts _ hg hn ht =>
      cases hn with
      | whole =>
        rw [hcount, List.length_cons, Nat.succ.injEq] at hlen
        rw [List.map_cons, ht.keys, hlen]
  · intro i e hi
    obtain ⟨hlt, rfl⟩ := List.getElem?_eq_some_iff.mp hi
    have hreport := hts.report hlt
    rwa [Nat.zero_add] at hreport

lemma matchOf_filed (htable : bc.lreGetGroupnames.isSome = true) {names : List Bytes} {took : ℕ → Prop} {index : ℕ}
    {ts : List (Bytes × GroupReport)}
    (h : ∀ {β : Type} (f : GroupReport → β), FiledByName names took (ts.map fun e => f e.2) (fileGroups f [] ts)) :
    GroupsFiled names took (matchOf bc js index ts) := by
  constructor
  · exact ⟨_, if_pos htable, h GroupReport.str⟩
  · intro mi hmi
    simp only [matchOf, htable, if_true] at hmi
    split at hmi
    · obtain rfl := Option.some.inj hmi
      exact ⟨_, rfl, h GroupReport.pair⟩
    · cases hmi

lemma filedByName_first {β : Type} (f : GroupReport → β) {name : Bytes} {rest : List Bytes} {n : ℕ} (hname : name ≠ [])
    (hrest : ∀ r ∈ rest, r = []) {ts : List (Bytes × GroupReport)}
    (hts : ts.map Prod.fst = [] :: name :: List.replicate n []) (took : ℕ → Prop) :
    FiledByName (name :: rest) took (ts.map fun e => f e.2) (fileGroups f [] ts) := by
  obtain ⟨e₀, ts, rfl, h₀, hts₀⟩ := List.map_eq_cons_iff.mp hts
  obtain ⟨e₁, ts, rfl, rfl, hts₁⟩ := List.map_eq_cons_iff.mp hts₀
  have hfiled : fileGroups f [] (e₀ :: e₁ :: ts) = [(e₁.1, f e₁.2)] := by
    have hunnamed : ∀ e ∈ ts, e.1 = [] := by
      intro e he
      have hmem : e.1 ∈ ts.map Prod.fst := List.mem_map_of_mem he
      rw [hts₁] at hmem
      exact List.eq_of_mem_replicate hmem
    show fileGroups f ((Table.setNamed [] e₀.1 (f e₀.2)).setNamed e₁.1 (f e₁.2)) ts = _
    rw [fileGroups_unnamed hunnamed, Table.setNamed, Table.setNamed, if_neg hname, if_pos h₀]
    rfl
  have hget (key : Bytes) : Table.getField [(e₁.1, f e₁.2)] key = if key = e₁.1 then some (f e₁.2) else none := by
    rw [Table.getField]
    by_cases hk : key = e₁.1
    · rw [if_pos hk, hk, List.lookup_cons_self]
    · have hne : (key == e₁.1) = false := by simpa using hk
      rw [if_neg hk, List.lookup_cons, hne]
      rfl
  rw [hfiled]
  constructor
  · intro key
    rw [hget]
    constructor
    · rintro ⟨v, hv⟩
      split at hv
      · next hk => exact ⟨1, (groupNamed_first hname hrest).mpr ⟨rfl, hk⟩⟩
      · cases hv
    · rintro ⟨i, hi⟩
      exact ⟨_, if_pos ((groupNamed_first hname hrest).mp hi).2⟩
  · rintro i key ⟨hi, -⟩
    obtain ⟨rfl, rfl⟩ := (groupNamed_first hname hrest).mp hi
    rw [hget, if_pos rfl]
    rfl

end Walked

section Only

def onlyCapture (count k s e : ℕ) : List (Option ℕ) :=
  (List.range (2 * count)).map fun j =>
    if j / 2 = 0 ∨ j / 2 = k then some (if j % 2 = 0 then s else e) else none

def onlyExec (k : ℕ) : Engine := fun bc _ cindex clen _ =>
  if 0 < bc.captureCount ∧ cindex ≤ clen then .matched (onlyCapture bc.captureCount k cindex clen) else .noMatch

variable {count k s e i : ℕ}

lemma slot_onlyCapture {j : ℕ} (hj : j < 2 * count) : slot (onlyCapture count k s e) j =
    if j / 2 = 0 ∨ j / 2 = k then some (if j % 2 = 0 then s else e) else none := by
  rw [slot, onlyCapture, List.getD_eq_getElem?_getD, List.getElem?_map, List.getElem?_range hj]
  rfl

lemma slots_onlyCapture (hi : i < count) : slot (onlyCapture count k s e) (2 * i) =
      (if i = 0 ∨ i = k then some s else none) ∧
    slot (onlyCapture count k s e) (2 * i + 1) = if i = 0 ∨ i = k then some e else none := by
  rw [slot_onlyCapture (by omega), slot_onlyCapture (by omega), show 2 * i / 2 = i by omega,
    show (2 * i + 1) / 2 = i by omega, if_pos (show 2 * i % 2 = 0 by omega),
    if_neg (show ¬ (2 * i + 1) % 2 = 0 by omega)]
  exact ⟨rfl, rfl⟩

lemma onlyCapture_captured (hcount : 0 < count) (hse : s ≤ e) : Captured e count (onlyCapture count k s e) := by
  constructor
  · obtain ⟨h₀, h₁⟩ := slots_onlyCapture (k := k) (s := s) (e := e) hcount
    exact ⟨s, e, h₀.trans (if_pos (.inl rfl)), h₁.trans (if_pos (.inl rfl))⟩
  · intro i hi
    obtain ⟨h₀, h₁⟩ := slots_onlyCapture (k := k) (s := s) (e := e) hi
    rw [h₀, h₁]
    by_cases hk : i = 0 ∨ i = k
    · rw [if_pos hk, if_pos hk]
      exact .inr ⟨s, e, rfl, rfl, hse, le_rfl⟩
    · rw [if_neg hk, if_neg hk]
      exact .inl ⟨rfl, rfl⟩

lemma onlyExec_captures (k : ℕ) (bc : Bytecode) : (onlyExec k).Captures bc := by
  intro cbuf cindex clen cbufType capture h
  rw [onlyExec] at h
  split at h
  · next hc =>
    obtain rfl := LreResult.matched.inj h
    exact onlyCapture_captured hc.1 hc.2
  · cases h

lemma bString_new : jsstringNew 16 [0x62] = .ok bString := by rfl

variable {re : RegExp} {gs : List (Bytes × UInt8)}

lemma onlyExec_run (hcount : re.bc.captureCount = gs.length + 1)
    (htable : re.bc.lreGetGroupnames = some (nameTable gs)) (hroom : re.bc.lreGetAllocCount ≤ captureSlots) (k : ℕ) :
    ∃ re' index ts,
      regexpExec (onlyExec k) { re with lastIndex := 0 } bString =
        ⟨re', .ok (some (matchOf re.bc bString index ts))⟩ ∧
      ts.map Prod.fst = [] :: nameKeys gs.length (nameTable gs) ∧
      (∀ i e, ts[i]? = some e → e.2.str = if i = 0 ∨ i = k then [0x62] else []) ∧
      ∀ i ≤ gs.length, TookPart (onlyExec k) { re with lastIndex := 0 } bString i ↔ i = 0 ∨ i = k := by
  have hwf : bString.WellFormed := jsstringNew_wellFormed bString_new fun _ => by norm_num
  have hpos : 0 < re.bc.captureCount := by omega
  have hstart : RegExp.startIndex { re with lastIndex := 0 } bString = 0 := by
    rw [RegExp.startIndex]
    split <;> rfl
  have hs : RegExp.Starts { re with lastIndex := 0 } bString := by
    rw [RegExp.Starts, hstart]
    exact Nat.zero_le _
  have hc : RegExp.call { re with lastIndex := 0 } (onlyExec k) bString =
      .matched (onlyCapture re.bc.captureCount k 0 1) := by
    rw [call_admitted hs ⟨by decide, hroom⟩, hstart, onlyExec, if_pos ⟨hpos, Nat.zero_le _⟩]
    rfl
  have hcap : Captured bString.len re.bc.captureCount (onlyCapture re.bc.captureCount k 0 1) :=
    onlyCapture_captured hpos (Nat.zero_le 1)
  have hreport : Reportable re.bc bString (onlyCapture re.bc.captureCount k 0 1) := by
    refine ⟨?_, fun _ _ _ => rfl, ?_⟩
    · intro p hp
      obtain rfl := Option.some.inj (hp.symm.trans htable)
      have hle : gs.length ≤ (nameTable gs).count 0 := nameTable_count
      omega
    · intro i hi s e h₀ h₁
      obtain ⟨hse, he⟩ := hcap.took hi h₀ h₁
      exact ⟨hse, Nat.le_succ_of_le he⟩
  obtain ⟨m, hm⟩ := (buildMatch_iff hwf (by intro hw; cases hw) hpos hcap).mpr hreport
  obtain ⟨index, ts, rfl, hkeys, hreports⟩ := buildMatch_walk hcount htable hm
  obtain ⟨h₀, h₁⟩ := slots_onlyCapture (k := k) (s := 0) (e := 1) hpos
  have hexec := regexpExec_matched hwf hs hc (h₁.trans (if_pos (.inl rfl))) le_rfl
  have hlen : ts.length = gs.length + 1 := by
    have hl := buildMatch_length hm
    rwa [matchOf, List.length_map, hcount] at hl
  refine ⟨_, index, ts, hexec.trans (by rw [hm]; rfl), hkeys, ?_, ?_⟩
  · intro i e hi
    have hlt : i < re.bc.captureCount := by
      rw [hcount, ← hlen]
      exact (List.getElem?_eq_some_iff.mp hi).1
    have hr := hreports i e hi
    obtain ⟨h₀, h₁⟩ := slots_onlyCapture (k := k) (s := 0) (e := 1) hlt
    rw [h₀, h₁] at hr
    have hb : reportGroup bString (some 0) (some 1) = .ok ⟨0, 1, [0x62]⟩ := by rfl
    by_cases hk : i = 0 ∨ i = k
    · rw [if_pos hk, if_pos hk] at hr
      rw [if_pos hk, Except.ok.inj (hr.symm.trans hb)]
    · rw [if_neg hk, if_neg hk] at hr
      rw [if_neg hk, Except.ok.inj (hr.symm.trans (reportGroup_none_narrow rfl))]
  · intro i hi
    have hlt : i < re.bc.captureCount := by omega
    obtain ⟨h₀, -⟩ := slots_onlyCapture (k := k) (s := 0) (e := 1) hlt
    constructor
    · rintro ⟨capture, hcall, -, htook⟩
      obtain rfl := LreResult.matched.inj (hc.symm.trans hcall)
      by_contra hk
      exact htook (h₀.trans (if_neg hk))
    · intro hk
      refine ⟨_, hc, hlt, ?_⟩
      rw [h₀, if_pos hk]
      exact Option.some_ne_none 0

end Only

section Aligned

variable {re : RegExp} {gs : List (Bytes × UInt8)} {name : Bytes} {k : ℕ}

lemma exists_first_named (hn : ∃ g ∈ gs, g.1 ≠ []) :
    ∃ pre g post, gs = pre ++ g :: post ∧ g.1 ≠ [] ∧ ∀ x ∈ pre, x.1 = [] := by
  obtain ⟨g, hg, hne⟩ := hn
  have hsome : (gs.find? fun x => x.1 ≠ []).isSome = true := List.find?_isSome.mpr ⟨g, hg, by simpa using hne⟩
  obtain ⟨x, hx⟩ := Option.isSome_iff_exists.mp hsome
  obtain ⟨hne, pre, post, rfl, hpre⟩ := List.find?_eq_some_iff_append.mp hx
  exact ⟨pre, x, post, rfl, by simpa using hne, fun y hy => by simpa using hpre y hy⟩

lemma groupNamed_at (pre : List (Bytes × UInt8)) {post : List (Bytes × UInt8)} {g : Bytes × UInt8} (hg : g.1 ≠ []) :
    GroupNamed ((pre ++ g :: post).map Prod.fst) (pre.length + 1) g.1 := by
  refine ⟨hg, ?_⟩
  rw [List.getElem?_cons_succ, List.getElem?_map, List.getElem?_append_right le_rfl, Nat.sub_self]
  rfl

variable (hcount : re.bc.captureCount = gs.length + 1) (htable : re.bc.lreGetGroupnames = some (nameTable gs))
variable (hroom : re.bc.lreGetAllocCount ≤ captureSlots) (h : NamesAligned re (gs.map Prod.fst))
include hcount htable hroom h

lemma NamesAligned.key (hk : GroupNamed (gs.map Prod.fst) k name) :
    ([] :: nameKeys gs.length (nameTable gs))[k]? = some name := by
  obtain ⟨re', index, ts, hexec, hkeys, hstr, htook⟩ := onlyExec_run hcount htable hroom k
  obtain ⟨t, ht, hfiled⟩ := (h _ (onlyExec_captures k _) 16 [0x62] bString 0 re' _ bString_new hexec).groups
  rw [matchOf, htable] at ht
  obtain rfl : fileGroups GroupReport.str [] ts = t := Option.some.inj ht
  have hle (j : ℕ) (key : Bytes) (hj : GroupNamed (gs.map Prod.fst) j key) : j ≤ gs.length := by
    have hlt := (List.getElem?_eq_some_iff.mp hj.2).1
    rw [List.length_cons, List.length_map] at hlt
    omega
  have hstands : StandsFor (gs.map Prod.fst) (TookPart (onlyExec k) { re with lastIndex := 0 } bString) k name := by
    refine ⟨hk, .inr ⟨(htook k (hle k name hk)).mpr (.inr rfl), fun j hj hpart => ?_⟩⟩
    exact ((htook j (hle j name hj)).mp hpart).resolve_left hj.pos
  have hlen : ts.length = gs.length + 1 := by
    have hl := congrArg List.length hkeys
    rwa [List.length_map, List.length_cons, nameKeys_length] at hl
  have hlt : k < ts.length := by
    have hk' := hle k name hk
    omega
  have hget := hfiled.fields k name hstands
  rw [matchOf, List.getElem?_map, List.getElem?_eq_getElem hlt, Option.map_some,
    hstr k _ (List.getElem?_eq_getElem hlt), if_pos (.inr rfl)] at hget
  obtain ⟨e, he, hkey, hv⟩ | hnil := mem_of_fileGroups hk.1 hget
  · obtain ⟨i, hi⟩ := List.getElem?_of_mem he
    have hkeyAt : ([] :: nameKeys gs.length (nameTable gs))[i]? = some name := by
      rw [← hkeys, List.getElem?_map, hi, Option.map_some, hkey]
    have hpart : i = 0 ∨ i = k := by
      by_contra hne
      rw [hstr i e hi, if_neg hne] at hv
      cases hv
    obtain rfl | rfl := hpart
    · exact absurd (Option.some.inj hkeyAt).symm hk.1
    · exact hkeyAt
  · cases hnil

lemma NamesAligned.first (hun : ∀ g ∈ gs, g.1 = [] → g.2 = 0) (hn : ∃ g ∈ gs, g.1 ≠ []) :
    ∃ g rest, gs = g :: rest ∧ g.1 ≠ [] := by
  obtain ⟨pre, g, post, rfl, hg, hpre⟩ := exists_first_named hn
  cases pre with
  | nil => exact ⟨g, post, rfl, hg⟩
  | cons x pre =>
    have hzero : ∀ y ∈ x :: pre, y = ([], 0) := fun y hy =>
      Prod.ext (hpre y hy) (hun y (List.mem_append_left _ hy) (hpre y hy))
    have hkey := h.key hcount htable hroom (groupNamed_at (x :: pre) hg)
    rw [List.getElem?_cons_succ, nameTable_append, nameTable_unnamed hzero, nameKeys_zeros_get (by simp) (by simp)]
      at hkey
    exact absurd (Option.some.inj hkey).symm hg

end Aligned

section Rest

variable {re : RegExp} {g : Bytes × UInt8} {rest : List (Bytes × UInt8)}
variable (hcount : re.bc.captureCount = (g :: rest).length + 1)
variable (htable : re.bc.lreGetGroupnames = some (nameTable (g :: rest)))
variable (hroom : re.bc.lreGetAllocCount ≤ captureSlots) (h : NamesAligned re ((g :: rest).map Prod.fst))
variable (hz : ∀ x ∈ g :: rest, 0 ∉ x.1)
variable (hun : ∀ x ∈ g :: rest, x.1 = [] → x.2 = 0)
include hcount htable hroom h hz hun

lemma NamesAligned.unnamed : ∀ x ∈ rest, x.1 = [] := by
  by_contra hall
  have hnamed : ∃ x ∈ rest, x.1 ≠ [] := by simpa only [not_forall, exists_prop] using hall
  obtain ⟨pre, g', post, rfl, hg', hpre⟩ := exists_first_named hnamed
  have hzero : ∀ y ∈ pre, y = ([], 0) := fun y hy =>
    Prod.ext (hpre y hy) (hun y (List.mem_cons_of_mem _ (List.mem_append_left _ hy)) (hpre y hy))
  have hkey := h.key hcount htable hroom (groupNamed_at (g :: pre) hg')
  rw [List.getElem?_cons_succ, nameTable_cons, List.length_cons, nameKeys_append (hz g List.mem_cons_self),
    List.length_cons, List.getElem?_cons_succ, nameTable_append, nameTable_unnamed hzero] at hkey
  by_cases hscope : g.2 = 0
  · rw [hscope, ← List.cons_append, ← List.replicate_succ, nameKeys_zeros_get (by simp) (by omega)] at hkey
    exact hg' (Option.some.inj hkey).symm
  · cases pre with
    | nil =>
      have hz' : 0 ∉ g.2 :: g'.1 := by
        rw [List.mem_cons, not_or]
        exact ⟨Ne.symm hscope, hz g' (by simp)⟩
      have hread := nameKeys_append (n := post.length) (q := g'.2 :: nameTable post) hz'
      simp only [List.nil_append, List.length_cons, List.length_nil, Nat.mul_zero, List.replicate_zero,
        nameTable_cons] at hkey
      rw [List.cons_append] at hread
      rw [hread] at hkey
      have hlen := congrArg List.length (Option.some.inj hkey)
      simp at hlen
    | cons y pre =>
      have hz' : 0 ∉ [g.2] := by simpa using Ne.symm hscope
      have hread (n m : ℕ) (q : Bytes) : nameKeys (n + 1) (g.2 :: (List.replicate (m + 1) 0 ++ q)) =
          [g.2] :: nameKeys n (List.replicate m 0 ++ q) := nameKeys_append hz'
      rw [List.length_append, List.length_cons, List.length_cons,
        show pre.length + 1 + (post.length + 1) = pre.length + post.length + 1 + 1 by omega,
        show 2 * (pre.length + 1) = 2 * pre.length + 1 + 1 by omega, hread, List.getElem?_cons_succ,
        nameKeys_zeros_get (by omega) (by omega)] at hkey
      exact hg' (Option.some.inj hkey).symm

lemma NamesAligned.scope (hg : g.1 ≠ []) : rest = [] ∨ g.2 = 0 := by
  have hrest := h.unnamed hcount htable hroom hz hun
  by_contra hnot
  obtain ⟨hne, hscope⟩ := not_or.mp hnot
  obtain ⟨x, rest, rfl⟩ := List.exists_cons_of_ne_nil hne
  have hzero : ∀ y ∈ x :: rest, y = ([], 0) := fun y hy =>
    Prod.ext (hrest y hy) (hun y (List.mem_cons_of_mem _ hy) (hrest y hy))
  have hunnamed : ∀ r ∈ (x :: rest).map Prod.fst, r = [] := by
    intro r hr
    obtain ⟨y, hy, rfl⟩ := List.mem_map.mp hr
    exact hrest y hy
  have hz' : 0 ∉ [g.2] := by simpa using Ne.symm hscope
  have hwalk : nameKeys (g :: x :: rest).length (nameTable (g :: x :: rest)) =
      g.1 :: [g.2] :: List.replicate rest.length [] := by
    have hread : nameKeys (rest.length + 1) (g.2 :: 0 :: List.replicate (2 * rest.length + 1) 0) =
        [g.2] :: nameKeys rest.length (List.replicate (2 * rest.length + 1) 0) := nameKeys_append hz'
    have hzeros := nameKeys_zeros (n := rest.length) (m := 2 * rest.length + 1) (q := []) (by omega)
    rw [List.append_nil] at hzeros
    rw [nameTable_cons, List.length_cons, nameKeys_append (hz g List.mem_cons_self), nameTable_unnamed hzero,
      List.length_cons, show 2 * (rest.length + 1) = 2 * rest.length + 1 + 1 by omega, List.replicate_succ, hread,
      hzeros]
  -- group 1 takes part and group 2 does not, but both are filed under the scope
  obtain ⟨re', index, ts, hexec, hkeys, hstr, -⟩ := onlyExec_run hcount htable hroom 1
  obtain ⟨t, ht, hfiled⟩ := (h _ (onlyExec_captures 1 _) 16 [0x62] bString 0 re' _ bString_new hexec).groups
  rw [matchOf, htable] at ht
  obtain rfl : fileGroups GroupReport.str [] ts = t := Option.some.inj ht
  rw [hwalk] at hkeys
  obtain ⟨e₀, ts, rfl, h₀, hkeys₀⟩ := List.map_eq_cons_iff.mp hkeys
  obtain ⟨e₁, ts, rfl, h₁, hkeys₁⟩ := List.map_eq_cons_iff.mp hkeys₀
  obtain ⟨e₂, ts, rfl, h₂, hkeys₂⟩ := List.map_eq_cons_iff.mp hkeys₁
  have hkey : (fileGroups GroupReport.str [] (e₀ :: e₁ :: e₂ :: ts)).getField [g.2] = some e₂.2.str := by
    have hlast : ∀ e ∈ ts, e.1 = [] := by
      intro e he
      have hmem : e.1 ∈ ts.map Prod.fst := List.mem_map_of_mem he
      rw [hkeys₂] at hmem
      exact List.eq_of_mem_replicate hmem
    show (fileGroups GroupReport.str
      (Table.setNamed (fileGroups GroupReport.str [] [e₀, e₁]) e₂.1 e₂.2.str) ts).getField [g.2] = _
    rw [fileGroups_unnamed hlast, getField_setNamed _ (List.cons_ne_nil _ _), if_pos h₂]
  obtain ⟨i, hi⟩ := (hfiled.keys [g.2]).mp ⟨_, hkey⟩
  obtain ⟨-, hscopeName⟩ := (groupNamed_first hg hunnamed).mp hi
  have hstands : StandsFor ((g :: x :: rest).map Prod.fst)
      (TookPart (onlyExec 1) { re with lastIndex := 0 } bString) 1 g.1 := by
    refine ⟨(groupNamed_first hg hunnamed).mpr ⟨rfl, rfl⟩, .inl fun j hj => ?_⟩
    exact ((groupNamed_first hg hunnamed).mp hj).1
  have hget := hfiled.fields 1 g.1 hstands
  rw [← hscopeName, hkey, hstr 2 e₂ rfl, if_neg (by omega)] at hget
  have hfirst : (matchOf re.bc bString index (e₀ :: e₁ :: e₂ :: ts)).captures[1]? = some e₁.2.str := rfl
  rw [hfirst, hstr 1 e₁ rfl, if_pos (.inr rfl)] at hget
  cases hget

end Rest

section Compiled

variable {U : Libunicode} {regexp flags : Bytes} {re : RegExp} {code : List Op} {s : REParseState}

def xyBytecode (groupNames : Bytes) : Bytecode where
  flags := lreFlagNamedGroups
  captureCount := 3
  registerCount := 0
  code := [.split false 6, .any, .goto (-11), .saveStart 0, .saveStart 1, .char false 0x78, .saveEnd 1, .saveStart 2,
    .char false 0x79, .saveEnd 2, .saveEnd 0, .matched]
  groupNames := groupNames

def xyExec : Engine := fun bc _ cindex clen _ =>
  if bc.captureCount = 3 ∧ cindex = 0 ∧ clen = 2 then .matched [some 0, some 2, some 0, some 1, some 1, some 2]
  else .noMatch

lemma xyExec_captures (bc : Bytecode) : xyExec.Captures bc := by
  intro cbuf cindex clen cbufType capture h
  rw [xyExec] at h
  split at h
  · next hc =>
    obtain ⟨hcount, -, rfl⟩ := hc
    obtain rfl := LreResult.matched.inj h
    refine ⟨⟨0, 2, rfl, rfl⟩, fun i hi => ?_⟩
    rw [hcount] at hi
    interval_cases i
    · exact .inr ⟨0, 2, rfl, rfl, by decide, le_rfl⟩
    · exact .inr ⟨0, 1, rfl, rfl, by decide, by decide⟩
    · exact .inr ⟨1, 2, rfl, rfl, by decide, le_rfl⟩
  · cases h

end Compiled

end Jsregexp
