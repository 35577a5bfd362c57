import Mathlib.Data.List.ReduceOption
import ThreadWatch.Proofs.Code.DebugTable
import ThreadWatch.Proofs.Code.Frame
import ThreadWatch.Proofs.Editing.Rewriting

/-!
# The tables of an edited body

What the tables of a body say of an instruction, they say after an edit of the whole group of the
instruction: handlers and variables cover the same instructions, lines and frames stand at the
groups they stood at, and what is not yet initialised is named by the place of its `new`.
-/

namespace ThreadWatch

variable {l : Layout}

/-! ### Single records -/

namespace ExceptionEntry

/-- The handler protects the code at the offset. -/
def Covers (e : ExceptionEntry) (offset : Nat) : Prop :=
  e.start.toNat ≤ offset ∧ offset < e.stop.toNat

instance (e : ExceptionEntry) (offset : Nat) : Decidable (e.Covers offset) :=
  inferInstanceAs (Decidable (_ ∧ _))

/-- The entry at the groups of its offsets. -/
structure MovedTo (l : Layout) (e moved : ExceptionEntry) : Prop where
  start : l.group e.start.toNat = .ok moved.start.toNat
  stop : l.group e.stop.toNat = .ok moved.stop.toNat
  handler : l.group e.handler.toNat = .ok moved.handler.toNat
  catchType : moved.catchType = e.catchType

end ExceptionEntry

/-- The row at the group of its offset. -/
structure LineNumber.MovedTo (l : Layout) (n moved : LineNumber) : Prop where
  start : l.group n.start.toNat = .ok moved.start.toNat
  line : moved.line = n.line

namespace LocalVariable

/-- The variable can be used at the offset. -/
def InScope (v : LocalVariable) (offset : Nat) : Prop :=
  v.start.toNat ≤ offset ∧ offset < v.start.toNat + v.length.toNat

/-- The variable from group to group. -/
structure MovedTo (l : Layout) (v moved : LocalVariable) : Prop where
  start : l.group v.start.toNat = .ok moved.start.toNat
  stop : l.group (v.start.toNat + v.length.toNat) = .ok (moved.start.toNat + moved.length.toNat)
  name : moved.name = v.name
  descriptor : moved.descriptor = v.descriptor
  index : moved.index = v.index

end LocalVariable

/-- The item with a `new` instruction named by its new place; nothing else about it changes. -/
inductive Verification.MovedTo (l : Layout) : Verification → Verification → Prop
  | still {item : Verification} : (∀ offset, item ≠ .uninitialized offset) → MovedTo l item item
  | uninitialized {old new : UInt16} : l.instruction old.toNat = .ok new.toNat →
    MovedTo l (.uninitialized old) (.uninitialized new)

/-- The frame of the same kind, with its items moved. -/
inductive FrameKind.MovedTo (l : Layout) : FrameKind → FrameKind → Prop
  | same : MovedTo l .same .same
  | sameOne {item moved : Verification} : item.MovedTo l moved →
    MovedTo l (.sameOne item) (.sameOne moved)
  | chop (count : UInt8) : MovedTo l (.chop count) (.chop count)
  | append {items moved : List Verification} : List.Forall₂ (Verification.MovedTo l) items moved →
    MovedTo l (.append items) (.append moved)
  | full {locals locals' stack stack' : List Verification} :
    List.Forall₂ (Verification.MovedTo l) locals locals' →
    List.Forall₂ (Verification.MovedTo l) stack stack' →
    MovedTo l (.full locals stack) (.full locals' stack')

/-- The frame at the group of its offset. -/
structure Frame.MovedTo (l : Layout) (f moved : Frame) : Prop where
  offset : l.group f.offset = .ok moved.offset
  kind : f.kind.MovedTo l moved.kind

theorem FrameKind.MovedTo.fits {k moved : FrameKind} (h : k.MovedTo l moved) (hfits : k.Fits) :
    moved.Fits := by
  cases h with
  | full hlocals hstack => exact ⟨hlocals.length_eq ▸ hfits.1, hstack.length_eq ▸ hfits.2⟩
  | _ => trivial

namespace Body

theorem narrow_eq_ok {offset : Nat} {n : UInt16} (h : narrow offset = .ok n) :
    n.toNat = offset := by
  unfold narrow at h
  split at h
  next hlt =>
    cases h
    exact UInt16.toNat_ofNat_of_lt' hlt
  · cases h

theorem movedGroup_eq_ok {offset moved : UInt16} (h : movedGroup l offset = .ok moved) :
    l.group offset.toNat = .ok moved.toNat := by
  obtain ⟨group, hgroup, h⟩ := bind_eq_ok.mp h
  rw [hgroup, narrow_eq_ok h]

theorem moveException_eq_ok {e moved : ExceptionEntry} (h : moveException l e = .ok moved) :
    e.MovedTo l moved := by
  obtain ⟨start, hstart, h⟩ := bind_eq_ok.mp h
  obtain ⟨stop, hstop, h⟩ := bind_eq_ok.mp h
  obtain ⟨handler, hhandler, h⟩ := bind_eq_ok.mp h
  obtain rfl := pure_eq_ok.mp h
  exact ⟨movedGroup_eq_ok hstart, movedGroup_eq_ok hstop, movedGroup_eq_ok hhandler, rfl⟩

theorem moveLine_eq_ok {n moved : LineNumber} (h : moveLine l n = .ok moved) :
    n.MovedTo l moved := by
  obtain ⟨start, hstart, h⟩ := bind_eq_ok.mp h
  obtain rfl := pure_eq_ok.mp h
  exact ⟨movedGroup_eq_ok hstart, rfl⟩

theorem moveScope_eq_ok {oldLength : Nat} {items : List Item} (hlays : l.Lays oldLength items)
    {v moved : LocalVariable} (h : moveScope l v = .ok moved) : v.MovedTo l moved := by
  obtain ⟨start, hstart, h⟩ := bind_eq_ok.mp h
  obtain ⟨stop, hstop, h⟩ := bind_eq_ok.mp h
  obtain ⟨start', hnarrow, h⟩ := bind_eq_ok.mp h
  obtain ⟨length', hnarrow', h⟩ := bind_eq_ok.mp h
  obtain rfl := pure_eq_ok.mp h
  -- the difference is not cut off, since groups keep their order
  have hle := hlays.group_le hstart hstop (Nat.le_add_right _ _)
  refine ⟨?_, ?_, rfl, rfl, rfl⟩
  · rw [hstart, narrow_eq_ok hnarrow]
  · dsimp only
    rw [hstop, narrow_eq_ok hnarrow, narrow_eq_ok hnarrow', Nat.add_sub_cancel' hle]

/-- The move of a `new` instruction. -/
def movedNew (l : Layout) (offset : UInt16) : Except Fault UInt16 := do
  narrow (← l.instruction offset.toNat)

theorem mapUninitialized_item_eq_ok {item moved : Verification}
    (h : item.mapUninitialized (movedNew l) = .ok moved) : item.MovedTo l moved := by
  cases item with
  | uninitialized old =>
    obtain ⟨new, hnew, rfl⟩ := map_eq_ok.mp h
    obtain ⟨place, hplace, hnarrow⟩ := bind_eq_ok.mp hnew
    exact .uninitialized (by rw [hplace, narrow_eq_ok hnarrow])
  | _ =>
    cases h
    exact .still (by simp)

theorem mapUninitialized_kind_eq_ok {kind moved : FrameKind}
    (h : kind.mapUninitialized (movedNew l) = .ok moved) : kind.MovedTo l moved := by
  have hitems : ∀ {items moved : List Verification},
      items.mapM (·.mapUninitialized (movedNew l)) = .ok moved →
      List.Forall₂ (Verification.MovedTo l) items moved := fun h =>
    (mapM_eq_ok.mp h).imp fun _ _ => mapUninitialized_item_eq_ok
  cases kind with
  | same =>
    cases h
    exact .same
  | sameOne item =>
    obtain ⟨_, hitem, rfl⟩ := map_eq_ok.mp h
    exact .sameOne (mapUninitialized_item_eq_ok hitem)
  | chop count =>
    cases h
    exact .chop count
  | append items =>
    obtain ⟨_, happend, rfl⟩ := map_eq_ok.mp h
    exact .append (hitems happend)
  | full locals stack =>
    obtain ⟨locals', hlocals, h⟩ := bind_eq_ok.mp h
    obtain ⟨stack', hstack, h⟩ := bind_eq_ok.mp h
    obtain rfl := pure_eq_ok.mp h
    exact .full (hitems hlocals) (hitems hstack)

theorem moveFrame_eq_ok {f moved : Frame} (h : moveFrame l f = .ok moved) : f.MovedTo l moved := by
  obtain ⟨offset, hoffset, h⟩ := bind_eq_ok.mp h
  obtain ⟨kind, hkind, h⟩ := bind_eq_ok.mp h
  obtain rfl := pure_eq_ok.mp h
  exact ⟨hoffset, mapUninitialized_kind_eq_ok hkind⟩

end Body

/-! ### What they say of an instruction -/

/-- The instruction that was at `old` has `new` in its group now. -/
def Regroups (items : List Item) (groups : List Group) (old new : Nat) : Prop :=
  ∃ x ∈ items.zip groups, x.1.instruction.offset = old ∧ x.2.Holds new

section Sides

variable {oldLength : Nat} {items : List Item} {groups : List Group} {o p : Nat}

theorem Regroups.le_iff (h : Regroups items groups o p)
    (hgroups : List.Forall₂ (Item.Becomes l) items groups) (hlays : l.Lays oldLength items)
    {a a' : Nat} (ha : l.group a = .ok a') : a' ≤ p ↔ a ≤ o := by
  obtain ⟨⟨item, g⟩, hmem, rfl, hp⟩ := h
  obtain ⟨_, hbecomes⟩ := List.forall₂_iff_zip.mp hgroups
  exact (hbecomes hmem).le_iff hlays (List.of_mem_zip hmem).1 ha hp

/-- Half-open ranges from group to group hold the group of what they held. -/
theorem Regroups.range_iff (h : Regroups items groups o p)
    (hgroups : List.Forall₂ (Item.Becomes l) items groups) (hlays : l.Lays oldLength items)
    {a a' b b' : Nat} (ha : l.group a = .ok a') (hb : l.group b = .ok b') :
    a' ≤ p ∧ p < b' ↔ a ≤ o ∧ o < b := by
  rw [h.le_iff hgroups hlays ha, ← Nat.not_le, h.le_iff hgroups hlays hb, Nat.not_le]

end Sides

/-- Entries to entries, those that cover an instruction to those that cover its group. -/
theorem forall₂_covers {oldLength : Nat} {items : List Item} {groups : List Group} {o p : Nat}
    (h : Regroups items groups o p) (hgroups : List.Forall₂ (Item.Becomes l) items groups)
    (hlays : l.Lays oldLength items) {entries moved : List ExceptionEntry}
    (hmoved : List.Forall₂ (ExceptionEntry.MovedTo l) entries moved) :
    List.Forall₂ (ExceptionEntry.MovedTo l) (entries.filter (·.Covers o))
      (moved.filter (·.Covers p)) := by
  refine List.rel_filter (fun e e' he => ?_) hmoved
  simp only [decide_eq_true_iff]
  exact (h.range_iff hgroups hlays he.start he.stop).symm

theorem LocalVariable.MovedTo.inScope_iff {oldLength : Nat} {items : List Item}
    {groups : List Group} {v moved : LocalVariable} (hv : v.MovedTo l moved)
    (hgroups : List.Forall₂ (Item.Becomes l) items groups) (hlays : l.Lays oldLength items)
    {o p : Nat} (h : Regroups items groups o p) : moved.InScope p ↔ v.InScope o :=
  h.range_iff hgroups hlays hv.start hv.stop

/-! ### Nested attributes -/

namespace Attribute

/-- Annotations of types, which are dropped. -/
def isTypeAnnotation (pool : Pool) (a : Attribute) : Bool :=
  a.isNamed pool "RuntimeVisibleTypeAnnotations" || a.isNamed pool "RuntimeInvisibleTypeAnnotations"

/-- Each variable is in scope in a group where it was in scope at the instruction. -/
def KeepScope (items : List Item) (groups : List Group) (v moved : LocalVariable) : Prop :=
  ∀ o p, Regroups items groups o p → (moved.InScope p ↔ v.InScope o)

/-- The tables of offsets. -/
def tables : List String :=
  ["LineNumberTable", "LocalVariableTable", "LocalVariableTypeTable", "StackMapTable"]

/-- A nested attribute as an edit leaves it: tables of offsets row by row, all else as it was. -/
structure MovedTo (pool : Pool) (l : Layout) (items : List Item) (groups : List Group)
    (a moved : Attribute) : Prop where
  name : moved.name = a.name
  lines : a.isNamed pool "LineNumberTable" = true →
    ∃ rows rows', LineNumber.parseTable a.info = .ok rows ∧
      LineNumber.parseTable moved.info = .ok rows' ∧
      List.Forall₂ (LineNumber.MovedTo l) rows rows'
  scopes : a.isNamed pool "LocalVariableTable" = true ∨
      a.isNamed pool "LocalVariableTypeTable" = true →
    ∃ rows rows', LocalVariable.parseTable a.info = .ok rows ∧
      LocalVariable.parseTable moved.info = .ok rows' ∧
      List.Forall₂ (fun v v' => v.MovedTo l v' ∧ KeepScope items groups v v') rows rows'
  frames : a.isNamed pool "StackMapTable" = true →
    ∃ frames frames', Frame.decode a.info = .ok frames ∧ Frame.decode moved.info = .ok frames' ∧
      List.Forall₂ (Frame.MovedTo l) frames frames'
  other : (∀ table ∈ tables, a.isNamed pool table = false) → moved = a

end Attribute

namespace Body

section Attributes

variable {pool : Pool} {a : Attribute} {oldLength : Nat} {items : List Item} {groups : List Group}
  (hgroups : List.Forall₂ (Item.Becomes l) items groups) (hlays : l.Lays oldLength items)

/-- An attribute that is one table is not another. -/
theorem not_isNamed_table {name : String} (other : String) (h : a.isNamed pool name = true)
    (hname : name ∈ Attribute.tables) (hother : other ∈ Attribute.tables) (hne : name ≠ other) :
    ¬ a.isNamed pool other = true := by
  have hsought : ∀ table ∈ Attribute.tables, table ∈ Prelude.soughtNames := by decide
  rw [Attribute.isNamed_eq_false h (hsought _ hname) (hsought _ hother) hne]
  exact Bool.false_ne_true

theorem movedTo_of_lines {rows rows' : List LineNumber}
    (hnamed : a.isNamed pool "LineNumberTable" = true)
    (hrows : LineNumber.parseTable a.info = .ok rows)
    (hmoved : rows.mapM (moveLine l) = .ok rows') :
    a.MovedTo pool l items groups { a with info := tableBytes LineNumber.bytes rows' } := by
  have hall := (mapM_eq_ok.mp hmoved).imp fun _ _ => moveLine_eq_ok
  have hread := run'_readTable_tableBytes LineNumber.spells_read hrows hall.length_eq.symm
  have hnot := fun other => not_isNamed_table other hnamed (by decide)
  exact {
    name := rfl
    lines := fun _ => ⟨rows, rows', hrows, hread, hall⟩
    scopes := fun h => (not_or_intro (hnot _ (by decide) (by decide))
      (hnot _ (by decide) (by decide)) h).elim
    frames := fun h => absurd h (hnot _ (by decide) (by decide))
    other := fun h => absurd hnamed (Bool.eq_false_iff.mp (h _ (by decide))) }

include hgroups hlays in
theorem movedTo_of_scopes {name : String} {rows rows' : List LocalVariable}
    (hname : name = "LocalVariableTable" ∨ name = "LocalVariableTypeTable")
    (hnamed : a.isNamed pool name = true)
    (hrows : LocalVariable.parseTable a.info = .ok rows)
    (hmoved : rows.mapM (moveScope l) = .ok rows') :
    a.MovedTo pool l items groups { a with info := tableBytes LocalVariable.bytes rows' } := by
  have hall := (mapM_eq_ok.mp hmoved).imp fun _ _ => moveScope_eq_ok hlays
  have hread := run'_readTable_tableBytes LocalVariable.spells_read hrows hall.length_eq.symm
  have hmem : name ∈ Attribute.tables := by
    rcases hname with rfl | rfl <;> decide
  have hnot := fun other => not_isNamed_table other hnamed hmem
  exact {
    name := rfl
    lines := fun h => absurd h (hnot _ (by decide) (by rcases hname with rfl | rfl <;> decide))
    scopes := fun _ => ⟨rows, rows', hrows, hread,
      hall.imp fun v v' hv => ⟨hv, fun o p h => hv.inScope_iff hgroups hlays h⟩⟩
    frames := fun h => absurd h (hnot _ (by decide) (by rcases hname with rfl | rfl <;> decide))
    other := fun h => absurd hnamed (Bool.eq_false_iff.mp (h _ hmem)) }

theorem movedTo_of_frames {frames frames' : List Frame} {info : Bytes}
    (hnamed : a.isNamed pool "StackMapTable" = true)
    (hframes : Frame.decode a.info = .ok frames) (hmoved : frames.mapM (moveFrame l) = .ok frames')
    (hinfo : Frame.encode frames' = .ok info) :
    a.MovedTo pool l items groups { a with info } := by
  have hall := (mapM_eq_ok.mp hmoved).imp fun _ _ => moveFrame_eq_ok
  have hfits : ∀ f' ∈ frames', f'.kind.Fits := by
    intro f' hf'
    obtain ⟨f, hf, hmoved⟩ := exists_of_mem_right hall hf'
    exact hmoved.kind.fits (Frame.fits_of_decode hframes f hf)
  have hnot := fun other => not_isNamed_table other hnamed (by decide)
  exact {
    name := rfl
    lines := fun h => absurd h (hnot _ (by decide) (by decide))
    scopes := fun h => (not_or_intro (hnot _ (by decide) (by decide))
      (hnot _ (by decide) (by decide)) h).elim
    frames := fun _ => ⟨frames, frames', hframes, Frame.decode_of_encode hfits hinfo, hall⟩
    other := fun h => absurd hnamed (Bool.eq_false_iff.mp (h _ (by decide))) }

theorem movedTo_self (hnone : ∀ table ∈ Attribute.tables, a.isNamed pool table = false) :
    a.MovedTo pool l items groups a := by
  have hnot := fun table htable => Bool.eq_false_iff.mp (hnone table htable)
  exact {
    name := rfl
    lines := fun h => absurd h (hnot _ (by decide))
    scopes := fun h => (not_or_intro (hnot _ (by decide)) (hnot _ (by decide)) h).elim
    frames := fun h => absurd h (hnot _ (by decide))
    other := fun _ => rfl }

include hgroups hlays in
/-- A nested attribute is dropped if it annotates types, and moved otherwise. -/
theorem moveAttribute_eq_ok {r : Option Attribute} (h : moveAttribute pool l a = .ok r) :
    (a.isTypeAnnotation pool = true ∧ r = none) ∨
      a.isTypeAnnotation pool = false ∧ ∃ moved, r = some moved ∧
        a.MovedTo pool l items groups moved := by
  unfold moveAttribute at h
  split at h
  next hdropped => exact .inl ⟨hdropped, (pure_eq_ok.mp h).symm⟩
  next hdropped =>
    refine .inr ⟨Bool.eq_false_iff.mpr hdropped, ?_⟩
    split at h
    next hlines =>
      obtain ⟨rows, hrows, h⟩ := bind_eq_ok.mp h
      obtain ⟨rows', hmoved, h⟩ := bind_eq_ok.mp h
      exact ⟨_, (pure_eq_ok.mp h).symm, movedTo_of_lines hlines hrows hmoved⟩
    next hlines =>
      split at h
      next hscopes =>
        obtain ⟨rows, hrows, h⟩ := bind_eq_ok.mp h
        obtain ⟨rows', hmoved, h⟩ := bind_eq_ok.mp h
        refine ⟨_, (pure_eq_ok.mp h).symm, ?_⟩
        rcases Bool.or_eq_true_iff.mp hscopes with hnamed | hnamed
        · exact movedTo_of_scopes hgroups hlays (.inl rfl) hnamed hrows hmoved
        · exact movedTo_of_scopes hgroups hlays (.inr rfl) hnamed hrows hmoved
      next hscopes =>
        split at h
        next hstack =>
          obtain ⟨frames, hframes, h⟩ := bind_eq_ok.mp h
          obtain ⟨frames', hmoved, h⟩ := bind_eq_ok.mp h
          obtain ⟨info, hinfo, h⟩ := bind_eq_ok.mp h
          exact ⟨_, (pure_eq_ok.mp h).symm, movedTo_of_frames hstack hframes hmoved hinfo⟩
        next hstack =>
          rw [Bool.or_eq_true, not_or] at hscopes
          refine ⟨_, (pure_eq_ok.mp h).symm, movedTo_self ?_⟩
          simp only [Attribute.tables, List.forall_mem_cons, Bool.eq_false_iff]
          exact ⟨hlines, hscopes.1, hscopes.2, hstack, by simp⟩

include hgroups hlays in
theorem moveAttributes_eq_ok {attributes : List Attribute} {moved : List (Option Attribute)}
    (h : List.Forall₂ (fun a r => moveAttribute pool l a = .ok r) attributes moved) :
    List.Forall₂ (Attribute.MovedTo pool l items groups)
      (attributes.filter fun a => !a.isTypeAnnotation pool) moved.reduceOption := by
  induction h with
  | nil => exact .nil
  | cons hmoved _ ih =>
    rcases moveAttribute_eq_ok hgroups hlays hmoved with ⟨hdropped, rfl⟩ |
      ⟨hdropped, moved, rfl, hfollows⟩
    · rw [List.filter_cons_of_neg (by simp [hdropped]), List.reduceOption_cons_of_none]
      exact ih
    · rw [List.filter_cons_of_pos (by simp [hdropped]), List.reduceOption_cons_of_some]
      exact .cons hfollows ih

end Attributes

end Body

/-! ### Whole bodies -/

/-- A Code attribute with its code relocated and its tables telling of every group what they told
of the instruction. -/
structure CodeAttribute.Regrouped (pool : Pool) (l : Layout) (items : List Item)
    (groups : List Group) (c moved : CodeAttribute) : Prop where
  decoded : Instruction.decode c.code = .ok (items.map (·.instruction))
  relocated : relocate c.code.length items = .ok ⟨moved.code, l⟩
  becomes : List.Forall₂ (Item.Becomes l) items groups
  redecoded : Instruction.decode moved.code = .ok (groups.flatMap Group.instructions)
  exceptions : List.Forall₂ (ExceptionEntry.MovedTo l) c.exceptions moved.exceptions
  covering : ∀ o p, Regroups items groups o p →
    List.Forall₂ (ExceptionEntry.MovedTo l) (c.exceptions.filter (·.Covers o))
      (moved.exceptions.filter (·.Covers p))
  attributes : List.Forall₂ (Attribute.MovedTo pool l items groups)
    (c.attributes.filter fun a => !a.isTypeAnnotation pool) moved.attributes

theorem Body.regrouped_of_toCode {pool : Pool} {b : Body} {code : CodeAttribute}
    (hdecode : Instruction.decode b.code.code = .ok (b.items.map (·.instruction)))
    (hstraight : ∀ item ∈ b.items, item.IsStraight) (h : b.toCode pool = .ok code) :
    ∃ l groups, b.code.Regrouped pool l b.items groups code := by
  obtain ⟨r, hr, h⟩ := bind_eq_ok.mp h
  obtain ⟨exceptions, hexceptions, h⟩ := bind_eq_ok.mp h
  obtain ⟨attributes, hattributes, h⟩ := bind_eq_ok.mp h
  obtain ⟨maxStack, _, h⟩ := bind_eq_ok.mp h
  obtain ⟨maxLocals, _, h⟩ := bind_eq_ok.mp h
  obtain rfl := pure_eq_ok.mp h
  have hlays := lays_of_relocate hdecode hr
  obtain ⟨groups, hgroups, hredecode⟩ := exists_groups_of_relocate hdecode hr hstraight
  have hmoved := (mapM_eq_ok.mp hexceptions).imp fun _ _ => moveException_eq_ok
  exact ⟨r.layout, groups, {
    decoded := hdecode
    relocated := hr
    becomes := hgroups
    redecoded := hredecode
    exceptions := hmoved
    covering := fun o p h => forall₂_covers h hgroups hlays hmoved
    attributes := moveAttributes_eq_ok hgroups hlays (mapM_eq_ok.mp hattributes) }⟩

namespace Workpiece

/-- A class whose method starts a thread under a handler and says so in every table. -/
def guarded : ClassFile := { starter with
  pool := ⟨starter.pool.slots ++ #[some (.utf8 (ModifiedUtf8.encode "LineNumberTable")),
    some (.utf8 (ModifiedUtf8.encode "LocalVariableTable")),
    some (.utf8 (ModifiedUtf8.encode "StackMapTable")),
    some (.utf8 (ModifiedUtf8.encode "RuntimeVisibleTypeAnnotations"))]⟩
  methods := [⟨9, 6, 7, [⟨3, [0, 1, 0, 1, 0, 0, 0, 7, 0x01, 0xB6, 0, 9, 0xB1, 0x57, 0xB1,
    0, 1, 0, 1, 0, 4, 0, 5, 0, 0,
    0, 4,
    0, 10, 0, 0, 0, 6, 0, 1, 0, 1, 0, 42,
    0, 11, 0, 0, 0, 12, 0, 1, 0, 1, 0, 6, 0, 6, 0, 7, 0, 0,
    0, 12, 0, 0, 0, 6, 0, 1, 69, 8, 0, 1,
    0, 13, 0, 0, 0, 2, 0, 0]⟩]⟩] }

end Workpiece

end ThreadWatch
