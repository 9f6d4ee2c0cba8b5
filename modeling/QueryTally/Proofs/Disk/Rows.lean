import QueryTally.Proofs.Disk.Hosting

/-! # Rows on a disk

Rows get into a file in one way only, when a connection replaces the table of its file. All
else that a connection does, and all that is done to names, leaves every file with at most
the rows that it had (`Disk.Unwritten`), whatever the state of the disk. -/

namespace QueryTally.Disk

variable {d d' d'' : Disk} {link : Link} {name : String} {f : FileNumber} {r : Row}

def HasRow (d : Disk) (f : FileNumber) (r : Row) : Prop :=
  ∃ t, (d.database f).table = some t ∧ r ∈ t.rows

/-- A disk after changes by which no file has got a row. Anything else may have changed: what
stands where, what a database refuses, and whether a table is there at all. -/
def Unwritten (d d' : Disk) : Prop := ∀ f r, d'.HasRow f r → d.HasRow f r

theorem Unwritten.refl (d : Disk) : d.Unwritten d := fun _ _ h => h

theorem Unwritten.trans (h : d.Unwritten d') (k : d'.Unwritten d'') : d.Unwritten d'' :=
  fun f r hr => h f r (k f r hr)

theorem hasRow_congr (h : d'.content f = d.content f) : d'.HasRow f r ↔ d.HasRow f r := by
  simp only [HasRow, database, h]

theorem unwritten_of_content (h : d'.content = d.content) : d.Unwritten d' :=
  fun f _ => (hasRow_congr (congrFun h f)).mp

theorem not_hasRow_bytes {bytes : List UInt8} (h : d.content f = .bytes bytes) :
    ¬ d.HasRow f r := by
  rintro ⟨t, ht, -⟩
  rw [database, h, Content.toDatabase] at ht
  split at ht
  · cases ht
  · cases ht

theorem unwritten_fill (d : Disk) (f : FileNumber) (bytes : List UInt8) :
    d.Unwritten (d.fill f (.bytes bytes)) := by
  intro g r hr
  by_cases hg : g = f
  · exact absurd hr (not_hasRow_bytes (if_pos hg))
  · exact (hasRow_congr (if_neg hg)).mp hr

theorem unwritten_make (d : Disk) (p : Path) (bytes : List UInt8) :
    d.Unwritten (d.make p (.bytes bytes)) :=
  unwritten_fill d d.next bytes

/-! ## Looking and letting go -/

theorem content_clearJournal (d : Disk) (link : Link) (place : Path) :
    (d.clearJournal link place).content = d.content := by
  rcases d.clearJournal_eq link place with e | e
  · rw [e]
  · rw [e, unlink_content]

theorem unwritten_remember (d : Disk) (link : Link) : d.Unwritten (d.remember link) := by
  rw [remember_eq]
  exact unwritten_of_content rfl

theorem unwritten_openLog (d : Disk) (link : Link) (place : Path) :
    d.Unwritten (d.openLog link place) := by
  unfold openLog
  split
  · dsimp only
    split
    · exact unwritten_make { d with logging := (link.number, link.file) :: d.logging } _ _
    · exact unwritten_of_content rfl
  · split
    · exact unwritten_of_content (unlink_content _ _)
    · exact .refl d

theorem unwritten_look (d : Disk) (link : Link) : d.Unwritten (d.look link) := by
  unfold look
  cases link.place with
  | none => exact .refl d
  | some place =>
    have hclear := unwritten_of_content (content_clearJournal d link place)
    dsimp only
    split
    · exact unwritten_remember d link
    · split
      · exact .refl d
      · split
        · exact hclear
        · exact (hclear.trans (unwritten_openLog _ link place)).trans (unwritten_remember _ link)

theorem unwritten_dropJournal (d : Disk) (link : Link) : d.Unwritten (d.dropJournal link) :=
  unwritten_of_content (content_dropJournal link d)

theorem unwritten_release (d : Disk) (link : Link) : d.Unwritten (d.release link) :=
  unwritten_of_content (content_release link d)

/-! ## Names -/

theorem content_makeWay (d : Disk) (here : Path) (steps : List String) :
    (d.makeWay here steps).2.content = d.content :=
  makeWay_keeps (P := fun e => e.content = d.content) (fun _ _ _ h => h) rfl here steps

theorem unwritten_makeParents (d : Disk) (name : String) :
    d.Unwritten (d.makeParents name).2 := by
  unfold makeParents
  split
  · exact .refl d
  · exact unwritten_of_content (content_makeWay d _ _)

theorem content_removeFiles (d : Disk) (names : List String) :
    (d.removeFiles names).2.content = d.content :=
  removeFiles_keeps (P := fun e => e.content = d.content) (fun _ _ _ _ h => h) rfl names

/-! ## Connecting -/

theorem unwritten_attach (d : Disk) (name : String) : d.Unwritten (d.attach name).2 := by
  unfold attach
  cases Location.ofName? name with
  | none => exact .refl d
  | some location =>
    cases location with
    | memory => exact unwritten_fill d _ _
    | file file access =>
      dsimp only
      cases d.locate file with
      | none => exact .refl d
      | some place =>
        dsimp only
        split
        · exact .refl d
        · cases d.node place with
          | directory => exact .refl d
          | file f => exact .refl d
          | absent =>
            dsimp only
            split
            · exact unwritten_make d place []
            · exact .refl d

theorem database_putTable_of_ne {table : Option Table} (h : f ≠ link.file) :
    (d.putTable link table).database f = d.database f := by
  simp only [putTable, database, fill_content, if_neg h]

theorem table_putTable (d : Disk) (link : Link) (table : Option Table) :
    ((d.putTable link table).database link.file).table = table := by
  simp only [putTable, database, fill_content, if_true, Content.toDatabase]

/-- **Replacing a table.** Its rows are those of the file, and the others are as they were. -/
theorem hasRow_putTable {table : Option Table} :
    (d.putTable link table).HasRow f r ↔
      if f = link.file then ∃ t, table = some t ∧ r ∈ t.rows else d.HasRow f r := by
  by_cases hf : f = link.file
  · rw [if_pos hf, hf, HasRow, table_putTable]
  · rw [if_neg hf, HasRow, database_putTable_of_ne hf, HasRow]

theorem unwritten_putTable_empty (d : Disk) (link : Link) :
    d.Unwritten (d.putTable link (some Table.empty)) := by
  intro f r hr
  rw [hasRow_putTable] at hr
  split at hr
  · obtain ⟨t, ht, hmem⟩ := hr
    cases ht
    cases hmem
  · exact hr

theorem unwritten_connect (d : Disk) (name : String) : d.Unwritten (d.connect name).2 := by
  have hattach := unwritten_attach d name
  unfold connect
  cases ha : d.attach name with
  | mk link d₁ =>
    rw [ha] at hattach
    cases link with
    | none => exact hattach
    | some link =>
      have hlook := hattach.trans (unwritten_look d₁ link)
      dsimp only
      split
      · exact hlook
      · split
        · exact hlook.trans (unwritten_release _ link)
        · exact (hlook.trans (unwritten_dropJournal _ link)).trans (unwritten_putTable_empty _ link)

/-- A connection that has just been made is the one that leads to the file. -/
theorem attach_of_connect {d₁ : Disk} (h : d.connect name = (.ok link, d₁)) :
    ∃ d₂, d.attach name = (some link, d₂) ∧ d₂.Unwritten d₁ := by
  unfold connect at h
  cases ha : d.attach name with
  | mk opened d₂ =>
    rw [ha] at h
    cases opened with
    | none => cases h
    | some opened =>
      dsimp only at h
      have hlook := unwritten_look d₂ opened
      split at h
      · cases h
        exact ⟨d₂, rfl, hlook⟩
      · split at h
        · cases h
        · cases h
          exact ⟨d₂, rfl,
            (hlook.trans (unwritten_dropJournal _ _)).trans (unwritten_putTable_empty _ _)⟩

/-! ## Seeing -/

/-- A connection that can look into its file sees the table of the file. -/
theorem seen_table (d : Disk) (link : Link) :
    (∃ refusal, d.seen link = .unreadable refusal) ∨
      (d.seen link).table = (d.database link.file).table ∧
        (d.seen link).formatted = (d.database link.file).formatted := by
  have hbase : (if link.readOnly then (d.database link.file).readOnly
      else d.database link.file).table = (d.database link.file).table ∧
      (if link.readOnly then (d.database link.file).readOnly
        else d.database link.file).formatted = (d.database link.file).formatted := by
    cases link.readOnly <;> exact ⟨rfl, rfl⟩
  unfold seen
  generalize (if link.readOnly then (d.database link.file).readOnly
    else d.database link.file) = base at hbase
  cases d.readFailure link with
  | some refusal => exact .inl ⟨refusal, rfl⟩
  | none =>
    refine .inr ?_
    cases link.place with
    | none => exact hbase
    | some place =>
      dsimp only
      split
      · exact hbase
      · split
        · split
          · exact hbase
          · exact hbase
        · split
          · exact hbase
          · exact hbase

/-- What a connection sees is in its file. -/
theorem hasRow_of_seen {t : Table} (h : (d.seen link).table = some t) (hr : r ∈ t.rows) :
    d.HasRow link.file r := by
  rcases d.seen_table link with ⟨refusal, e⟩ | ⟨e, -⟩
  · rw [e] at h
    cases h
  · exact ⟨t, e.symm.trans h, hr⟩

end QueryTally.Disk
