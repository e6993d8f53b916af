/-
A reader consumes bytes from the front of a string and may fail.  `Reads` says
that a reader takes exactly a given byte string to a given value whatever
follows it; `Takes` says that whatever a reader accepts begins with bytes that
were written for its value.  Both compose along `bind`, so a decoder's round
trip is assembled field by field in either direction.  Nothing here names the
repository.
-/
import CheckPo.BigEndian

namespace CheckPo

universe u v

variable {ε : Type u} {α β : Type v}

/-- A reader over the remaining bytes, failing with `ε`. -/
abbrev ByteReader (ε : Type u) (α : Type) := StateT Bytes (Except ε) α

/-- The reader turns `bytes` into `value`, leaving whatever follows. -/
def Reads {α : Type} (reader : ByteReader ε α) (bytes : Bytes) (value : α) :
    Prop :=
  ∀ rest : Bytes, reader.run (bytes ++ rest) = .ok (value, rest)

namespace Reads

variable {α β : Type}

theorem pure (value : α) : Reads (Pure.pure value : ByteReader ε α) [] value :=
  fun _ => rfl

theorem bind {reader : ByteReader ε α} {f : α → ByteReader ε β}
    {front back : Bytes} {first : α} {second : β}
    (hfront : Reads reader front first)
    (hback : Reads (f first) back second) :
    Reads (reader >>= f) (front ++ back) second := by
  intro rest
  rw [StateT.run_bind, List.append_assoc, hfront (back ++ rest)]
  exact hback rest

/-- The last field of a sequence of reads: what follows only builds a value. -/
theorem bind_pure {reader : ByteReader ε α} {f : α → β}
    {bytes : Bytes} {value : α} (h : Reads reader bytes value) :
    Reads (reader >>= fun field => Pure.pure (f field)) bytes (f value) := by
  have hbound := bind (f := fun field => Pure.pure (f field)) h
    (pure (f value))
  rwa [List.append_nil] at hbound

theorem run_eq {reader : ByteReader ε α} {bytes : Bytes} {value : α}
    (h : Reads reader bytes value) : reader.run bytes = .ok (value, []) := by
  have hrun := h []
  rwa [List.append_nil] at hrun

end Reads

/-- A reader that succeeds has a successful first step. -/
theorem ByteReader.run_bind_ok {α β : Type} {reader : ByteReader ε α}
    {next : α → ByteReader ε β} {bytes rest : Bytes} {value : β}
    (h : (reader >>= next).run bytes = .ok (value, rest)) :
    ∃ first middle, reader.run bytes = .ok (first, middle) ∧
      (next first).run middle = .ok (value, rest) := by
  rw [StateT.run_bind] at h
  cases hfirst : reader.run bytes with
  | error error => rw [hfirst] at h; cases h
  | ok pair => exact ⟨pair.1, pair.2, rfl, by rwa [hfirst] at h⟩

/-- Repeat a reader a fixed number of times, keeping the values in order. -/
def readMany {α : Type} (reader : ByteReader ε α) : Nat → ByteReader ε (List α)
  | 0 => pure []
  | count + 1 => do
      let value ← reader
      let values ← readMany reader count
      pure (value :: values)

/-! What a reader accepts. -/

/-- Whatever the reader accepts begins with bytes written for its value. -/
def Takes {α : Type} (reader : ByteReader ε α) (written : α → Bytes → Prop) : Prop :=
  ∀ bytes value rest, reader.run bytes = .ok (value, rest) →
    ∃ front, written value front ∧ bytes = front ++ rest

namespace Takes

variable {α β : Type}

theorem pure (value : α) :
    Takes (Pure.pure value : ByteReader ε α) fun result front => result = value ∧ front = [] := by
  intro bytes result rest h
  cases h
  exact ⟨[], ⟨rfl, rfl⟩, rfl⟩

theorem bind {reader : ByteReader ε α} {next : α → ByteReader ε β}
    {written : α → Bytes → Prop} {following : α → β → Bytes → Prop}
    (hfirst : Takes reader written) (hnext : ∀ first, Takes (next first) (following first)) :
    Takes (reader >>= next) fun value bytes => ∃ first front back,
      written first front ∧ following first value back ∧ bytes = front ++ back := by
  intro bytes value rest h
  obtain ⟨first, middle, hrun, hafter⟩ := ByteReader.run_bind_ok h
  obtain ⟨front, hfront, rfl⟩ := hfirst _ _ _ hrun
  obtain ⟨back, hback, rfl⟩ := hnext first _ _ _ hafter
  exact ⟨front ++ back, ⟨first, front, back, hfront, hback, rfl⟩,
    (List.append_assoc _ _ _).symm⟩

/-- `bind` with the description of the second step given first. -/
theorem bind_of {reader : ByteReader ε α} {next : α → ByteReader ε β}
    {written : α → Bytes → Prop} (hfirst : Takes reader written)
    (following : α → β → Bytes → Prop) (hnext : ∀ first, Takes (next first) (following first)) :
    Takes (reader >>= next) fun value bytes => ∃ first front back,
      written first front ∧ following first value back ∧ bytes = front ++ back :=
  bind hfirst hnext

/-- A first field whose bytes are a function of its value. -/
theorem field {reader : ByteReader ε α} {next : α → ByteReader ε β} {write : α → Bytes}
    {following : α → β → Bytes → Prop} (hfirst : Takes reader fun value front =>
      front = write value) (hnext : ∀ first, Takes (next first) (following first)) :
    Takes (reader >>= next) fun value bytes => ∃ first back,
      following first value back ∧ bytes = write first ++ back := by
  intro bytes value rest h
  obtain ⟨front, ⟨first, _, back, rfl, hback, rfl⟩, hbytes⟩ := hfirst.bind hnext _ _ _ h
  exact ⟨write first ++ back, ⟨first, back, hback, rfl⟩, hbytes⟩

/-- A first step that reads nothing. -/
theorem check {reader : ByteReader ε α} {next : α → ByteReader ε β} {holds : α → Prop}
    {following : α → β → Bytes → Prop} (hfirst : Takes reader fun value front =>
      holds value ∧ front = []) (hnext : ∀ first, Takes (next first) (following first)) :
    Takes (reader >>= next) fun value bytes => ∃ first, holds first ∧
      following first value bytes := by
  intro bytes value rest h
  obtain ⟨_, ⟨first, _, back, ⟨hholds, rfl⟩, hback, rfl⟩, hbytes⟩ :=
    hfirst.bind hnext _ _ _ h
  exact ⟨_, ⟨first, hholds, hback⟩, hbytes⟩

theorem weaken {reader : ByteReader ε α} {written written' : α → Bytes → Prop}
    (h : Takes reader written) (hwritten : ∀ value front, written value front →
      written' value front) : Takes reader written' := by
  intro bytes value rest hrun
  obtain ⟨front, hfront, hbytes⟩ := h bytes value rest hrun
  exact ⟨front, hwritten value front hfront, hbytes⟩

/-- Repeating a reader accepts the concatenation of what it accepts each time. -/
theorem readMany {reader : ByteReader ε α} {encode : α → Except ε Bytes}
    (h : Takes reader fun value front => encode value = .ok front) (count : Nat) :
    Takes (readMany reader count) fun values front => values.length = count ∧
      ∃ fields, List.Forall₂ (fun value field => encode value = .ok field) values fields ∧
        front = fields.flatten := by
  induction count with
  | zero =>
      apply (pure []).weaken
      rintro values front ⟨rfl, rfl⟩
      exact ⟨rfl, [], .nil, rfl⟩
  | succ count ih =>
      apply (h.bind fun first => ih.bind fun rest => pure (first :: rest)).weaken
      rintro values front ⟨first, field, back, hfield, ⟨rest, front', back',
        ⟨rfl, fields, hfields, rfl⟩, ⟨rfl, rfl⟩, rfl⟩, rfl⟩
      exact ⟨rfl, field :: fields, .cons hfield hfields, by simp⟩

end Takes

end CheckPo
