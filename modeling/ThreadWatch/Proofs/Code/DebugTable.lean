import ThreadWatch.Code.DebugTable
import ThreadWatch.Proofs.Bytes.Spelling

/-!
# Line and variable tables are read back

A table is read from its rows, whatever stands behind them; what is written for rows is read as
those rows as long as the count holds their number.
-/

namespace ThreadWatch

/-- The rows of a table are what stands in front. -/
theorem run'_readTable_eq_ok {α : Type} {row : Reader α} {bytes : α → Bytes}
    (hrow : row.Spells fun a part => part = bytes a) {info : Bytes} {rows : List α} :
    (readTable row).run' info = .ok rows ↔
      rows.length < 65536 ∧ ∃ tail, info = tableBytes bytes rows ++ tail := by
  unfold readTable
  rw [hrow.ok.counted.run'_eq_ok]
  simp only [written_ok_iff, exists_eq_left, tableBytes]
  constructor
  · rintro ⟨_, tail, ⟨hlt, rfl⟩, rfl⟩
    exact ⟨hlt, tail, rfl⟩
  · rintro ⟨hlt, tail, rfl⟩
    exact ⟨_, tail, ⟨hlt, rfl⟩, rfl⟩

/-- As many rows as were read from one table are read back from another. -/
theorem run'_readTable_tableBytes {α : Type} {row : Reader α} {bytes : α → Bytes}
    (hrow : row.Spells fun a part => part = bytes a) {info : Bytes} {rows rows' : List α}
    (h : (readTable row).run' info = .ok rows) (hlength : rows'.length = rows.length) :
    (readTable row).run' (tableBytes bytes rows') = .ok rows' := by
  obtain ⟨hlt, _⟩ := (run'_readTable_eq_ok hrow).mp h
  exact (run'_readTable_eq_ok hrow).mpr ⟨hlength ▸ hlt, [], (List.append_nil _).symm⟩

theorem LineNumber.spells_read : read.Spells fun l part => part = l.bytes := by
  unfold read
  refine (Reader.spells_u16.bind fun start => Reader.spells_u16.last _).congr fun l part => ?_
  unfold LineNumber.bytes
  constructor
  · rintro ⟨start, _, _, rfl, ⟨line, rfl, rfl⟩, rfl⟩
    rfl
  · rintro rfl
    exact ⟨l.start, _, _, rfl, ⟨l.line, rfl, rfl⟩, rfl⟩

theorem LocalVariable.spells_read : read.Spells fun v part => part = v.bytes := by
  unfold read
  refine (Reader.spells_u16.bind fun start => Reader.spells_u16.bind fun length =>
    Reader.spells_u16.bind fun name => Reader.spells_u16.bind fun descriptor =>
    Reader.spells_u16.last _).congr fun v part => ?_
  unfold LocalVariable.bytes
  constructor
  · rintro ⟨start, _, _, rfl, ⟨length, _, _, rfl, ⟨name, _, _, rfl, ⟨descriptor, _, _, rfl,
      ⟨index, rfl, rfl⟩, rfl⟩, rfl⟩, rfl⟩, rfl⟩
    simp
  · rintro rfl
    exact ⟨v.start, _, _, rfl, ⟨v.length, _, _, rfl, ⟨v.name, _, _, rfl, ⟨v.descriptor, _, _, rfl,
      ⟨v.index, rfl, rfl⟩, rfl⟩, rfl⟩, rfl⟩, by simp⟩

end ThreadWatch
