import Mathlib.Data.Stream.Init

namespace Machine

variable {σ ι α : Type*}

-- One flow of code on memory that interrupt handlers share with it. `schedule`
-- gives the interrupts that come in before each of the accesses ahead.
structure Thread (σ ι : Type*) where
  memory : σ
  interrupts : Bool
  schedule : Stream' (List ι)

namespace Thread

section Accesses

variable (handler : ι → σ → σ)

-- A handler runs as a whole: its gate masks the interrupts until it returns.
def interrupted (t : Thread σ ι) : Thread σ ι :=
  if t.interrupts then
    { t with
      memory := t.schedule.head.foldl (fun memory interrupt => handler interrupt memory) t.memory
      schedule := t.schedule.tail }
  else t

def access (f : σ → α × σ) (t : Thread σ ι) : α × Thread σ ι :=
  let t := t.interrupted handler
  let (value, memory) := f t.memory
  (value, { t with memory := memory })

def read (f : σ → α) (t : Thread σ ι) : α × Thread σ ι :=
  t.access handler (fun memory => (f memory, memory))

def write (f : σ → σ) (t : Thread σ ι) : Thread σ ι :=
  (t.access handler (fun memory => ((), f memory))).2

def cli (t : Thread σ ι) : Thread σ ι :=
  { t.interrupted handler with interrupts := false }

def sti (t : Thread σ ι) : Thread σ ι :=
  { t.interrupted handler with interrupts := true }

end Accesses

section Rules

variable {handler : ι → σ → σ} {I J : σ → Prop}

@[simp] theorem interrupted_interrupts (t : Thread σ ι) :
    (t.interrupted handler).interrupts = t.interrupts := by
  unfold interrupted
  split <;> rfl

@[simp] theorem access_interrupts (f : σ → α × σ) (t : Thread σ ι) :
    (t.access handler f).2.interrupts = t.interrupts := interrupted_interrupts t

@[simp] theorem read_interrupts (f : σ → α) (t : Thread σ ι) :
    (t.read handler f).2.interrupts = t.interrupts := interrupted_interrupts t

@[simp] theorem write_interrupts (f : σ → σ) (t : Thread σ ι) :
    (t.write handler f).interrupts = t.interrupts := interrupted_interrupts t

@[simp] theorem cli_interrupts (t : Thread σ ι) : (t.cli handler).interrupts = false := rfl

@[simp] theorem sti_interrupts (t : Thread σ ι) : (t.sti handler).interrupts = true := rfl

-- What every handler keeps holds at the next access, however many come before it.
def Stable (handler : ι → σ → σ) (I : σ → Prop) : Prop :=
  ∀ interrupt memory, I memory → I (handler interrupt memory)

theorem Stable.foldl (hstable : Stable handler I) (burst : List ι) (memory : σ) (h : I memory) :
    I (burst.foldl (fun memory interrupt => handler interrupt memory) memory) := by
  induction burst generalizing memory with
  | nil => exact h
  | cons interrupt rest ih => exact ih _ (hstable interrupt memory h)

theorem Stable.interrupted (hstable : Stable handler I) (t : Thread σ ι) (h : I t.memory) :
    I (t.interrupted handler).memory := by
  unfold Thread.interrupted
  split
  · exact hstable.foldl t.schedule.head t.memory h
  · exact h

theorem Stable.access (hstable : Stable handler I) (f : σ → α × σ) (t : Thread σ ι)
    (h : I t.memory) (hf : ∀ memory, I memory → J (f memory).2) :
    J (t.access handler f).2.memory := hf _ (hstable.interrupted t h)

theorem Stable.read (hstable : Stable handler I) (f : σ → α) (t : Thread σ ι) (h : I t.memory) :
    I (t.read handler f).2.memory := hstable.interrupted t h

theorem Stable.write (hstable : Stable handler I) (f : σ → σ) (t : Thread σ ι)
    (h : I t.memory) (hf : ∀ memory, I memory → J (f memory)) :
    J (t.write handler f).memory := hf _ (hstable.interrupted t h)

theorem Stable.cli (hstable : Stable handler I) (t : Thread σ ι) (h : I t.memory) :
    I (t.cli handler).memory := hstable.interrupted t h

theorem Stable.sti (hstable : Stable handler I) (t : Thread σ ι) (h : I t.memory) :
    I (t.sti handler).memory := hstable.interrupted t h

end Rules

end Thread

end Machine
