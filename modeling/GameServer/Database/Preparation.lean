import GameServer.Database.ErrorHandling

/-!
# What `PrepareStatements` leaves behind

Where `PrepareStatements` reports success on a connection with a handle, each statement of the
connection's type is prepared on this handle (`prepareStatements_ok`). The indices of a statement
table are the keys of a map, so no two entries share one. Without a handle `PrepareStatements`
returns only where there is nothing to prepare (`prepareStatements_null`).
-/

namespace GameServer.Database

open GameServer.Lib GameServer.Lib.Exec

/-- The entry is prepared on the handle `k`, if the connection is of its type. -/
def Loaded (k : Nat) (w : World) (item : StmtEntry) : Prop :=
  w.connectType.Joins item.joinConnectionType →
    ∃ stmt, w.stmts[item.index]? = some (some stmt) ∧ stmt.mySqlStmt = k ∧
      stmt.sqlString = item.sql

/-- Going from `w` to `v`, the entries were prepared on the handle `k`, or the error flag was set;
slots of no entry are as before. -/
structure Loads (k : Nat) (items : List StmtEntry) (w v : World) : Prop where
  mysql : v.mysql = w.mysql
  opens : v.opens = w.opens
  connectType : v.connectType = w.connectType
  error : v.prepareError = false → w.prepareError = false
  loaded : v.prepareError = false → ∀ item ∈ items, Loaded k v item
  others : ∀ index, index ∉ items.map StmtEntry.index → v.stmts[index]? = w.stmts[index]?

variable {env : Env} {k : Nat} {w v : World}

theorem setStmt_ok {index : Nat} {stmt : Option MySqlPreparedStatement}
    (h : setStmt index stmt w = .ok ⟨⟩ v) :
    index < w.stmts.length ∧ v = { w with stmts := w.stmts.set index stmt } := by
  unfold setStmt at h
  rw [get_bind] at h
  split at h
  · next hlt =>
    cases h
    exact ⟨hlt, rfl⟩
  · cases h

theorem mysqlStmtInit_ok {stmt : Option Nat} (hw : w.mysql = some k)
    (h : mysqlStmtInit env w = .ok stmt v) :
    (∀ s, stmt = some s → s = k) ∧ v = { w with stmtInits := w.stmtInits + 1 } := by
  unfold mysqlStmtInit at h
  rw [get_bind, hw] at h
  cases h
  refine ⟨?_, rfl⟩
  intro s hs
  split at hs
  · exact (Option.some.inj hs).symm
  · cases hs

/-- A step that sets the flag loads nothing and promises nothing. -/
theorem Loads.of_error {item : StmtEntry} (hmysql : v.mysql = w.mysql) (hopens : v.opens = w.opens)
    (htype : v.connectType = w.connectType) (hstmts : v.stmts = w.stmts)
    (herror : v.prepareError = true) : Loads k [item] w v := by
  have habsurd : v.prepareError ≠ false := by
    rw [herror]
    decide
  refine ⟨hmysql, hopens, htype, fun h => absurd h habsurd, fun h => absurd h habsurd, ?_⟩
  intro index _
  rw [hstmts]

/-- A step that writes the slot of its entry. -/
theorem Loads.of_set {item : StmtEntry} {u : World} {stmt : Option MySqlPreparedStatement}
    (h : setStmt item.index stmt u = .ok ⟨⟩ v) (hmysql : u.mysql = w.mysql)
    (hopens : u.opens = w.opens) (htype : u.connectType = w.connectType)
    (hstmts : u.stmts = w.stmts) (herror : u.prepareError = w.prepareError)
    (hstmt : w.connectType.Joins item.joinConnectionType →
      ∃ s, stmt = some s ∧ s.mySqlStmt = k ∧ s.sqlString = item.sql) : Loads k [item] w v := by
  obtain ⟨hlt, rfl⟩ := setStmt_ok h
  refine ⟨hmysql, hopens, htype, fun h => herror.symm.trans h, ?_, ?_⟩
  · intro _ item' hmem
    rw [List.mem_singleton.1 hmem]
    intro hjoins
    obtain ⟨s, rfl, hs⟩ := hstmt (htype ▸ hjoins)
    exact ⟨s, List.getElem?_set_self hlt, hs⟩
  · intro index hne
    rw [← hstmts]
    exact List.getElem?_set_ne fun heq => hne (List.mem_singleton.2 heq.symm)

theorem prepareStatement_ok {item : StmtEntry} (hw : w.mysql = some k)
    (h : prepareStatement env item.index item.sql item.joinConnectionType w = .ok ⟨⟩ v) :
    Loads k [item] w v := by
  unfold prepareStatement at h
  rw [get_bind] at h
  split at h
  · obtain ⟨stmt, u, hu, hprepare⟩ := bind_eq_ok.1 h
    obtain ⟨hstmt, rfl⟩ := mysqlStmtInit_ok hw hu
    cases stmt with
    | none =>
      cases hprepare
      exact .of_error rfl rfl rfl rfl rfl
    | some s =>
      obtain rfl := hstmt s rfl
      obtain ⟨code, u, hu, hset⟩ := bind_eq_ok.1 hprepare
      cases hu
      split at hset
      · cases hset
        exact .of_error rfl rfl rfl rfl rfl
      · exact .of_set hset rfl rfl rfl rfl rfl fun _ => ⟨⟨_, item.sql, _⟩, rfl, rfl, rfl⟩
  · next hjoins => exact .of_set h rfl rfl rfl rfl rfl fun hj => absurd hj hjoins

/-- The entries of a table are loaded one after the other; none overwrites another. -/
theorem Loads.cons {item : StmtEntry} {items : List StmtEntry} {u : World}
    (hkeys : ((item :: items).map StmtEntry.index).Nodup) (h : Loads k [item] w u)
    (hrest : Loads k items u v) : Loads k (item :: items) w v := by
  rw [List.map_cons, List.nodup_cons] at hkeys
  refine ⟨hrest.mysql.trans h.mysql, hrest.opens.trans h.opens,
    hrest.connectType.trans h.connectType, fun herror => h.error (hrest.error herror), ?_, ?_⟩
  · intro herror item' hmem
    rcases List.mem_cons.1 hmem with rfl | hmem
    · intro hjoins
      rw [hrest.connectType] at hjoins
      rw [hrest.others _ hkeys.1]
      exact h.loaded (hrest.error herror) _ (List.mem_singleton_self _) hjoins
    · exact hrest.loaded herror item' hmem
  · intro index hindex
    rw [List.map_cons, List.mem_cons, not_or] at hindex
    rw [hrest.others _ hindex.2]
    exact h.others _ fun hmem => hindex.1 (List.mem_singleton.1 hmem)

theorem forM_prepareStatement_ok {items : List StmtEntry}
    (hkeys : (items.map StmtEntry.index).Nodup) (hw : w.mysql = some k)
    (h : items.forM (fun item =>
      prepareStatement env item.index item.sql item.joinConnectionType) w = .ok ⟨⟩ v) :
    Loads k items w v := by
  induction items generalizing w with
  | nil =>
    cases h
    exact ⟨rfl, rfl, rfl, id, fun _ item hmem => absurd hmem List.not_mem_nil, fun _ _ => rfl⟩
  | cons item items ih =>
    obtain ⟨_, u, hu, hrest⟩ := bind_eq_ok.1 h
    have hitem := prepareStatement_ok hw hu
    exact .cons hkeys hitem (ih (List.nodup_cons.1 hkeys).2 (hitem.mysql.trans hw) hrest)

/-- **Prepared statements.** `PrepareStatements` reports success only where each statement of the
connection's type is prepared on the connection's handle. -/
theorem prepareStatements_ok (hkeys : (env.stmtMap.map StmtEntry.index).Nodup)
    (hw : w.mysql = some k) (h : prepareStatements env w = .ok true v) :
    v.mysql = w.mysql ∧ v.opens = w.opens ∧ ∀ item ∈ env.stmtMap, Loaded k v item := by
  obtain ⟨_, u, hu, hret⟩ := bind_eq_ok.1 h
  rw [get_bind, modify_bind, pure_apply, EStateM.Result.ok.injEq] at hret
  obtain ⟨herror, rfl⟩ := hret
  have herror : u.prepareError = false := by simpa using herror
  unfold doPrepareStatements at hu
  rw [get_bind] at hu
  have hload : ∃ w', w'.mysql = w.mysql ∧ w'.opens = w.opens ∧ Loads k env.stmtMap w' u := by
    split at hu
    · rw [modify_bind] at hu
      exact ⟨resizeStmts w env.stmtMax, rfl, rfl, forM_prepareStatement_ok hkeys hw hu⟩
    · exact ⟨w, rfl, rfl, forM_prepareStatement_ok hkeys hw hu⟩
  obtain ⟨w', hmysql, hopens, hloads⟩ := hload
  exact ⟨hloads.mysql.trans hmysql, hloads.opens.trans hopens, hloads.loaded herror⟩

/-! ## Without a handle -/

/-- The entry is not for the connection's type, and has a slot. -/
def World.Skips (w : World) (item : StmtEntry) : Prop :=
  ¬w.connectType.Joins item.joinConnectionType ∧ item.index < w.stmts.length

instance (w : World) (item : StmtEntry) : Decidable (w.Skips item) :=
  inferInstanceAs (Decidable (_ ∧ _))

/-- The connection after the slots of these entries were reset. -/
def World.reset (w : World) (items : List StmtEntry) : World :=
  { w with stmts := items.foldl (fun stmts item => stmts.set item.index none) w.stmts }

theorem prepareStatement_null (env : Env) (item : StmtEntry) (hw : w.mysql = none) :
    prepareStatement env item.index item.sql item.joinConnectionType w =
      if w.Skips item then .ok ⟨⟩ (w.reset [item]) else .error .fault w := by
  unfold prepareStatement
  rw [get_bind]
  by_cases hjoins : w.connectType.Joins item.joinConnectionType
  · have hskips : ¬w.Skips item := fun h => h.1 hjoins
    rw [if_pos hjoins, if_neg hskips]
    refine bind_of_error ?_
    unfold mysqlStmtInit
    rw [get_bind, hw]
    rfl
  · rw [if_neg hjoins]
    unfold setStmt
    rw [get_bind]
    by_cases hlt : item.index < w.stmts.length
    · have hskips : w.Skips item := ⟨hjoins, hlt⟩
      rw [if_pos hlt, if_pos hskips]
      rfl
    · have hskips : ¬w.Skips item := fun h => hlt h.2
      rw [if_neg hlt, if_neg hskips]
      rfl

theorem skips_reset (w : World) (items : List StmtEntry) (item : StmtEntry) :
    (w.reset items).Skips item ↔ w.Skips item := by
  have hlength : ∀ stmts : List (Option MySqlPreparedStatement),
      (items.foldl (fun stmts item => stmts.set item.index none) stmts).length = stmts.length := by
    induction items with
    | nil => exact fun _ => rfl
    | cons i items ih => exact fun stmts => (ih _).trans List.length_set
  unfold World.Skips World.reset
  rw [hlength]

theorem forM_prepareStatement_null {items : List StmtEntry} (hw : w.mysql = none) :
    items.forM (fun item =>
      prepareStatement env item.index item.sql item.joinConnectionType) w = .ok ⟨⟩ v ↔
      (∀ item ∈ items, w.Skips item) ∧ v = w.reset items := by
  induction items generalizing w with
  | nil =>
    change EStateM.Result.ok PUnit.unit w = .ok ⟨⟩ v ↔ _
    rw [EStateM.Result.ok.injEq]
    exact ⟨fun h => ⟨nofun, h.2.symm⟩, fun h => ⟨rfl, h.2.symm⟩⟩
  | cons item items ih =>
    rw [List.forall_mem_cons]
    change (prepareStatement env item.index item.sql item.joinConnectionType >>= fun _ =>
      items.forM _) w = _ ↔ _
    have hitem := prepareStatement_null env item hw
    by_cases hskips : w.Skips item
    · rw [if_pos hskips] at hitem
      rw [bind_of_ok hitem, ih (w := w.reset [item]) hw]
      simp only [skips_reset, hskips, true_and]
      exact Iff.rfl
    · rw [if_neg hskips] at hitem
      rw [bind_of_error hitem]
      exact iff_of_false nofun fun h => hskips h.1.1

/-- Reconnecting, and without a handle. -/
theorem prepareStatements_null {ready : Bool} (hw : w.mysql = none) (hr : w.reconnecting = true) :
    prepareStatements env w = .ok ready v ↔ (∀ item ∈ env.stmtMap, w.Skips item) ∧
      ready = !w.prepareError ∧
      v = { w.reset env.stmtMap with preparations := w.preparations ++ [ready] } := by
  have hload : doPrepareStatements env w = env.stmtMap.forM (fun item =>
      prepareStatement env item.index item.sql item.joinConnectionType) w := by
    unfold doPrepareStatements
    rw [get_bind, hr]
    rfl
  unfold prepareStatements
  rw [bind_eq_ok, hload]
  constructor
  · rintro ⟨_, u, hu, hret⟩
    obtain ⟨hskips, rfl⟩ := (forM_prepareStatement_null hw).1 hu
    rw [get_bind, modify_bind, pure_apply, EStateM.Result.ok.injEq] at hret
    obtain ⟨rfl, rfl⟩ := hret
    exact ⟨hskips, rfl, rfl⟩
  · rintro ⟨hskips, rfl, rfl⟩
    exact ⟨⟨⟩, _, (forM_prepareStatement_null hw).2 ⟨hskips, rfl⟩, rfl⟩

/-- An entry that has to be prepared, or has no slot. -/
theorem forM_prepareStatement_null_fault (env : Env) {items : List StmtEntry}
    (hw : w.mysql = none) (h : ¬∀ item ∈ items, w.Skips item) : ∃ u, items.forM (fun item =>
      prepareStatement env item.index item.sql item.joinConnectionType) w = .error .fault u := by
  induction items generalizing w with
  | nil => exact absurd (fun _ hitem => absurd hitem List.not_mem_nil) h
  | cons item items ih =>
    rw [List.forall_mem_cons] at h
    change ∃ u, (prepareStatement env item.index item.sql item.joinConnectionType >>= fun _ =>
      items.forM _) w = _
    have hitem := prepareStatement_null env item hw
    by_cases hskips : w.Skips item
    · rw [if_pos hskips] at hitem
      rw [bind_of_ok hitem]
      refine ih (w := w.reset [item]) hw fun hrest => h ⟨hskips, ?_⟩
      simpa only [skips_reset] using hrest
    · rw [if_neg hskips] at hitem
      exact ⟨_, bind_of_error hitem⟩

theorem prepareStatements_null_fault (hw : w.mysql = none) (hr : w.reconnecting = true)
    (h : ¬∀ item ∈ env.stmtMap, w.Skips item) :
    ∃ u, prepareStatements env w = .error .fault u := by
  obtain ⟨u, hu⟩ := forM_prepareStatement_null_fault env hw h
  have hload : doPrepareStatements env w = .error .fault u := by
    unfold doPrepareStatements
    rw [get_bind, hr]
    exact hu
  exact ⟨u, bind_of_error hload⟩

end GameServer.Database
