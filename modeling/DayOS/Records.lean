import DayOS.Layout

set_option autoImplicit false

/-! # Messages, message nodes and process records

The offsets of `message_t`, `struct MESSAGE_NODE` and `process_t` as a 32-bit compiler lays
them out. A node is a message (532 bytes, the last word of which nothing uses) followed by
its two links; a process record holds its mailbox (`first`, `last`, `num_messages`) at
offset 12.

A `message_t` that a caller passes by pointer is an object of its own, so the model passes it
by value: `none` is the null pointer, and the callee hands back what it has written.
-/

namespace DayOS

open ByteMemory

def sizeofMessageNode : Nat := 540
def sizeofProcess : Nat := 52

/-- The message node at address `n`, as a block. -/
def nodeBlock (n : Nat) : Block := ⟨n, sizeofMessageNode⟩

/-- The process record at address `p`, as a block. -/
def procBlock (p : Nat) : Block := ⟨p, sizeofProcess⟩

/-! ## Messages -/

/-- A `message_t`: four words and 512 bytes of text. -/
structure Message where
  sender : UInt32
  receiver : UInt32
  size : UInt32
  signal : UInt32
  message : Vector UInt8 512
  deriving DecidableEq

/-- A message of zero bytes. -/
def Message.blank : Message := ⟨0, 0, 0, 0, Vector.replicate 512 0⟩

/-- The message stored at `a`. -/
def readMessage (m : Mem) (a : Nat) : Message where
  sender := UInt32.ofNat (load32 m a)
  receiver := UInt32.ofNat (load32 m (a + 4))
  size := UInt32.ofNat (load32 m (a + 8))
  signal := UInt32.ofNat (load32 m (a + 12))
  message := Vector.ofFn (fun i : Fin 512 => m (a + 16 + i))

/-- `copy_message` into memory: every field of `src` but the unused link. -/
def copyMessage (m : Mem) (dest : Nat) (src : Message) : Mem :=
  let m := store32 m dest src.sender.toNat
  let m := store32 m (dest + 4) src.receiver.toNat
  let m := store32 m (dest + 12) src.signal.toNat
  let m := store32 m (dest + 8) src.size.toNat
  writeBytes m (dest + 16) src.message.toList

theorem copyMessage_of_outside {m : Mem} {dest : Nat} {src : Message} {x : Nat}
    (h : x < dest ∨ dest + 528 ≤ x) : copyMessage m dest src x = m x := by
  have hlen : src.message.toList.length = 512 := by simp
  simp only [copyMessage]
  rw [writeBytes_of_outside (by omega), store32_of_outside (by omega),
    store32_of_outside (by omega), store32_of_outside (by omega), store32_of_outside (by omega)]

theorem ofNat_mod_toNat (v : UInt32) : UInt32.ofNat (v.toNat % 2 ^ 32) = v := by
  have hv := v.toNat_lt
  rw [Nat.mod_eq_of_lt hv, UInt32.ofNat_toNat]

@[simp] theorem readMessage_copyMessage (m : Mem) (a : Nat) (msg : Message) :
    readMessage (copyMessage m a msg) a = msg := by
  have hlen : msg.message.toList.length = 512 := by simp
  have hw : ∀ k, k + 4 ≤ 16 → load32 (copyMessage m a msg) (a + k)
      = load32 (store32 (store32 (store32 (store32 m a msg.sender.toNat) (a + 4)
          msg.receiver.toNat) (a + 12) msg.signal.toNat) (a + 8) msg.size.toNat) (a + k) :=
    fun k hk => load32_writeBytes_of_ne (by omega)
  have h₀ : load32 (copyMessage m a msg) a = msg.sender.toNat % 2 ^ 32 := by
    refine (hw 0 (by omega)).trans ?_
    rw [load32_store32_of_ne (by omega), load32_store32_of_ne (by omega),
      load32_store32_of_ne (by omega)]
    exact load32_store32 m a _
  have h₄ : load32 (copyMessage m a msg) (a + 4) = msg.receiver.toNat % 2 ^ 32 := by
    rw [hw 4 (by omega), load32_store32_of_ne (by omega), load32_store32_of_ne (by omega),
      load32_store32]
  have h₈ : load32 (copyMessage m a msg) (a + 8) = msg.size.toNat % 2 ^ 32 := by
    rw [hw 8 (by omega), load32_store32]
  have h₁₂ : load32 (copyMessage m a msg) (a + 12) = msg.signal.toNat % 2 ^ 32 := by
    rw [hw 12 (by omega), load32_store32_of_ne (by omega), load32_store32]
  have hb : Vector.ofFn (fun i : Fin 512 => copyMessage m a msg (a + 16 + i)) = msg.message := by
    ext i hi
    simp [copyMessage, writeBytes]
  simp only [readMessage, h₀, h₄, h₈, h₁₂, hb, ofNat_mod_toNat]

theorem readMessage_congr {m m' : Mem} {a : Nat} (h : AgreeOn m m' a 528) :
    readMessage m' a = readMessage m a := by
  simp only [readMessage]
  rw [load32_congr (h.mono (by omega) (by omega)), load32_congr (h.mono (by omega) (by omega)),
    load32_congr (h.mono (by omega) (by omega)), load32_congr (h.mono (by omega) (by omega))]
  have hb : (fun i : Fin 512 => m' (a + 16 + i)) = fun i : Fin 512 => m (a + 16 + i) := by
    funext i
    exact h _ (by omega) (by omega)
  rw [hb]

/-! ## Message nodes -/

def msgNext (m : Mem) (node : Nat) : Nat := load32 m (node + 532)
def msgPrev (m : Mem) (node : Nat) : Nat := load32 m (node + 536)

/-! ## Process records -/

def procState (m : Mem) (p : Nat) : Nat := load32 m p
def procContext (m : Mem) (p : Nat) : Nat := load32 m (p + 4)
def procPid (m : Mem) (p : Nat) : Nat := load32 m (p + 8)
def msgFirst (m : Mem) (p : Nat) : Nat := load32 m (p + 12)
def msgLast (m : Mem) (p : Nat) : Nat := load32 m (p + 16)
def numMessages (m : Mem) (p : Nat) : Nat := load32 m (p + 20)
def sbrkState (m : Mem) (p : Nat) : Nat := load32 m (p + 24)
def procStack (m : Mem) (p : Nat) : Nat := load32 m (p + 28)
def userStack (m : Mem) (p : Nat) : Nat := load32 m (p + 32)
def sleepTimer (m : Mem) (p : Nat) : Nat := load32 m (p + 36)
def procStatus (m : Mem) (p : Nat) : Nat := load8 m (p + 40)
def procUid (m : Mem) (p : Nat) : Nat := load32 m (p + 44)
def procNext (m : Mem) (p : Nat) : Nat := load32 m (p + 48)

end DayOS
