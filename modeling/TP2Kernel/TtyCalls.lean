import TP2Kernel.Syscalls

/-!
# The terminal as a system

The keyboard interrupt and the readers of the terminal. Each of them runs with interrupts
disabled until it returns or sleeps, so it is one step; between two of them the rest of the kernel
may do anything to its own data.
-/

namespace TP2Kernel

/-- A step of the terminal system. `resume` is a reader that runs again behind its sleep;
`elsewhere` is what the rest of the kernel does. -/
inductive TtyEvent
  | push (exec : Slot) (c : UInt8)
  | read (exec : Slot) (n : Int)
  | resume (exec : Slot) (n : Nat)
  | elsewhere (k' : Kernel)

/-- What is seen of the terminal: a character or a Ctrl-D that is typed, the bytes that a read
returns, and a read that returns 0. -/
inductive TtyEntry
  | key (c : UInt8)
  | eofKey
  | got (bytes : List UInt8)
  | zero
  deriving DecidableEq

/-- The kernel, and what has been seen of its terminal. -/
structure TtyRun where
  k : Kernel
  log : List TtyEntry

namespace TtyRun

/-- The terminal input of `k` in a kernel whose other data is that of `k'`. -/
def graft (k k' : Kernel) : Kernel :=
  { k' with tty := { k'.tty with ring := k.tty.ring, eof := k.tty.eof } }

/-- What is seen of a read. -/
def entryOf : Outcome → List TtyEntry
  | .read bytes => [.got bytes]
  | .ret v => if v = 0 then [.zero] else []
  | _ => []

/-- A reader that returns or sleeps. -/
def reader (σ : TtyRun) (r : Kernel × Outcome) : TtyRun := ⟨r.1, σ.log ++ entryOf r.2⟩

/-- One event. A reader sleeps only when it has asked for one byte or more. -/
def step (σ : TtyRun) : TtyEvent → TtyRun
  | .push exec c =>
    ⟨(ttyPushChar σ.k exec c).1, σ.log ++ [if c = 4 then .eofKey else .key c]⟩
  | .read exec n => σ.reader (ttyRead σ.k exec n)
  | .resume exec n => if n = 0 then σ else σ.reader (ttyReadLoop exec n 2 σ.k)
  | .elsewhere k' => { σ with k := graft σ.k k' }

def run (σ : TtyRun) (es : List TtyEvent) : TtyRun := es.foldl step σ

end TtyRun

/-- `tty_default` has just cleared the terminal. -/
structure TtyFresh (k : Kernel) : Prop where
  size : k.tty.ring.size = 0
  head : k.tty.ring.r = 0
  tail : k.tty.ring.w = 0
  eof : k.tty.eof = false

/-- The unread characters, and what has been seen. -/
structure ListTty where
  unread : List UInt8
  log : List TtyEntry

namespace ListTty

/-- A read of `n` bytes. -/
def read (l : ListTty) (n : Nat) : ListTty :=
  if n = 0 ∨ l.unread = [] then l
  else ⟨l.unread.drop n, l.log ++ [.got (l.unread.take n)]⟩

/-- One event: a push appends, and drops the oldest character of more than `ttyBufferCap`. -/
def step (l : ListTty) : TtyEvent → ListTty
  | .push _ c => ⟨(l.unread ++ [c]).drop (l.unread.length + 1 - ttyBufferCap), l.log ++ [.key c]⟩
  | .read _ n => l.read n.toNat
  | .resume _ n => l.read n
  | .elsewhere _ => l

def run (l : ListTty) (es : List TtyEvent) : ListTty := es.foldl step l

end ListTty

/-- Not Ctrl-C, and not Ctrl-D. -/
def TtyEvent.Plain : TtyEvent → Prop
  | .push _ c => c ≠ 3 ∧ c ≠ 4
  | _ => True

/-- The characters that were typed. -/
def typedChars (log : List TtyEntry) : List UInt8 :=
  log.flatMap fun | .key c => [c] | _ => []

/-- The bytes that reads have returned. -/
def returnedBytes (log : List TtyEntry) : List UInt8 :=
  log.flatMap fun | .got bytes => bytes | _ => []

/-- Every read that returned 0 has a Ctrl-D of its own that was typed before it, and reads had
then returned exactly the characters that were typed before that Ctrl-D. -/
structure EofMatches (log : List TtyEntry) (f : Nat → Nat) : Prop where
  eofKey : ∀ j, log[j]? = some .zero → f j < j ∧ log[f j]? = some .eofKey
  chars : ∀ j, log[j]? = some .zero → returnedBytes (log.take j) = typedChars (log.take (f j))
  distinct : ∀ i j, log[i]? = some .zero → log[j]? = some .zero → f i = f j → i = j

/-- End-of-file is delivered in order. -/
def EofInOrder (log : List TtyEntry) : Prop := ∃ f, EofMatches log f

/-- The entry is a key. -/
def TtyEntry.isKey : TtyEntry → Bool
  | .key _ => true
  | .eofKey => true
  | _ => false

/-- The last key that was typed. -/
def lastKey (log : List TtyEntry) : Option TtyEntry := (log.filter TtyEntry.isKey).getLast?

namespace TtyRun

/-- The event is no Ctrl-C, and a character finds room in the buffer. -/
def Roomy (σ : TtyRun) : TtyEvent → Prop
  | .push _ c => c ≠ 3 ∧ (c ≠ 4 → σ.k.tty.ring.size < ttyBufferCap)
  | _ => True

/-- A reader that finds no character and end-of-file pending finds that the last key was Ctrl-D. -/
def EofLast (σ : TtyRun) : Prop :=
  σ.k.tty.ring.size = 0 → σ.k.tty.eof = true → lastKey σ.log = some .eofKey

/-- `EofLast` where the event is a read. -/
def ReadsEofLast (σ : TtyRun) : TtyEvent → Prop
  | .read _ n => 0 < n → σ.EofLast
  | .resume _ n => 0 < n → σ.EofLast
  | _ => True

/-- A condition on the state before each event of a run. -/
def Along (P : TtyRun → TtyEvent → Prop) : TtyRun → List TtyEvent → Prop
  | _, [] => True
  | σ, e :: es => P σ e ∧ Along P (σ.step e) es

end TtyRun

end TP2Kernel
