import DnsGate.Files.Disk
import DnsGate.Proofs.Utf8Text

/-!
What stands on a disk after a file was written or moved: the file at its path, and everything else
as it was.
-/

namespace DnsGate

/-- A sequence of computations that succeeds: both do. -/
theorem exists_of_bind_ok {ε α β : Type} {x : Except ε α} {f : α → Except ε β} {b : β}
    (h : x >>= f = .ok b) : ∃ a, x = .ok a ∧ f a = .ok b := by
  cases x with
  | error e => cases h
  | ok a => exact ⟨a, rfl, h⟩

namespace Files.Disk

variable {d d' : Disk} {path source target : String} {content : Bytes}

theorem find?_insert (items : Data.Table Item) (path other : String) (i : Item) :
    (Disk.mk (items.insert path i)).find? other =
      if other = path then some i else (Disk.mk items).find? other :=
  Data.Table.find?_insert items path other i

theorem find?_remove (d : Disk) (path other : String) :
    (d.remove path).find? other = if other = path then none else d.find? other :=
  Data.Table.find?_erase d.items path other

theorem find?_write (h : d.write path content = .ok d') (other : String) :
    d'.find? other = if other = path then some (.file content) else d.find? other := by
  have hd : d' = ⟨d.items.insert path (.file content)⟩ := by
    unfold write at h
    split at h
    · cases h
    · cases h
      rfl
    · split at h
      · cases h
        rfl
      · cases h
  rw [hd, find?_insert]

/-- What is read at a path is a file that stands there. -/
theorem read_eq_ok_iff : d.read path = .ok content ↔ d.find? path = some (.file content) := by
  unfold read
  rcases d.find? path with _ | ⟨bs⟩ | _ <;> simp

theorem find?_rename (h : d.rename source target = .ok d') :
    ∃ content, d.find? source = some (.file content) ∧ ∀ other, d'.find? other =
      if other = source then none
      else if other = target then some (.file content) else d.find? other := by
  obtain ⟨content, hread, h⟩ := exists_of_bind_ok h
  obtain ⟨written, hwrite, h⟩ := exists_of_bind_ok h
  cases h
  refine ⟨content, read_eq_ok_iff.mp hread, ?_⟩
  intro other
  rw [find?_remove, find?_write hwrite]

/-- A file can be moved over another one. -/
theorem exists_rename {old : Bytes} (hsource : d.find? source = some (.file content))
    (htarget : d.find? target = some (.file old)) : ∃ d', d.rename source target = .ok d' := by
  have hwrite : d.write target content = .ok ⟨d.items.insert target (.file content)⟩ := by
    unfold write
    rw [htarget]
  refine ⟨Disk.remove ⟨d.items.insert target (.file content)⟩ source, ?_⟩
  unfold rename
  rw [read_eq_ok_iff.mpr hsource]
  show d.write target content >>= _ = _
  rw [hwrite]
  rfl

/-- A file can be written at the path. -/
def Writable (d : Disk) (path : String) : Prop := ∀ content, ∃ d', d.write path content = .ok d'

theorem readText_eq_ok_iff {text : String} : d.readText path = .ok text ↔
    ∃ content, d.find? path = some (.file content) ∧ Utf8.decode? content = some text := by
  unfold readText read
  rcases d.find? path with _ | ⟨bs⟩ | _
  · simp [bind, Except.bind]
  · cases hbs : Utf8.decode? bs <;> simp [bind, Except.bind, hbs]
  · simp [bind, Except.bind]

theorem readText_encode {text : String} (h : d.find? path = some (.file (Utf8.encode text))) :
    d.readText path = .ok text := readText_eq_ok_iff.mpr ⟨_, h, Utf8.decode?_encode text⟩

/-- What is read at a path depends on what stands there alone. -/
theorem readText_ok_congr {text : String} (h : d'.find? path = d.find? path) :
    d'.readText path = .ok text ↔ d.readText path = .ok text := by
  rw [readText_eq_ok_iff, readText_eq_ok_iff, h]

end Files.Disk

end DnsGate
