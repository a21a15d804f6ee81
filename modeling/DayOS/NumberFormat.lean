import DayOS.Lib.CString
import DayOS.Lib.Numeral
import DayOS.Console

set_option autoImplicit false

/-! # Numbers on the console and on the serial line (`video.c`, `debug.c`)

`kputn` and `dbgputn` write the digits of a number into a buffer of 65 bytes, from its end, and
print them: `kputn` on the screen, `dbgputn` on the serial line, where each character waits until
the line is ready. For bases from 2 to 36 both print the numeral of the number (`number_format`).
-/

namespace DayOS

open CString Numeral

/-! ## The code -/

/-- Where the code has no result: a division by zero, a store or a read outside of `buf`, a read
behind `digits`, and a wait for the line that has used up its polls. -/
inductive FormatFault where
  | division
  | outside
  | digit
  | waiting
  deriving DecidableEq

/-- `digits`, with the NUL at its end. -/
def digits : List UInt8 :=
  "0123456789ABCDEFGHIJKLMNOPQRSTUVWXYZ".toList.map (fun c => c.toNat.toUInt8) ++ [0]

/-- A store to `buf`. -/
def storeByte (buf : Nat → UInt8) (i : Nat) (c : UInt8) : Except FormatFault (Nat → UInt8) :=
  if i < 65 then .ok (Function.update buf i c) else .error .outside

/-- `memset(buf, 0, n)`. -/
def clearBytes (buf : Nat → UInt8) : Nat → Except FormatFault (Nat → UInt8)
  | 0 => .ok buf
  | n + 1 => do
      let buf ← clearBytes buf n
      storeByte buf n 0

/-- The loop of `kputn` and of `dbgputn`. The result is the buffer and `p - buf`. -/
def digitLoop (buf : Nat → UInt8) (x base : UInt32) :
    Nat → Except FormatFault ((Nat → UInt8) × Nat)
  | 0 => .error .outside
  | p + 1 =>
      if base = 0 then .error .division
      else match digits[(x % base).toNat]? with
        | none => .error .digit
        | some c => do
            let buf ← storeByte buf p c
            if x / base = 0 then .ok (buf, p) else digitLoop buf (x / base) base p

/-- What `kputn` and `dbgputn` do in front of the call that prints. The `int` is converted to
`unsigned int` in both operations. -/
def formatNumber (stack : Nat → UInt8) (x : UInt32) (base : Int32) :
    Except FormatFault ((Nat → UInt8) × Nat) := do
  let buf ← clearBytes stack 64
  let buf ← storeByte buf 64 0
  digitLoop buf x base.toUInt32 64

/-- `kputs`, for a string in `buf`. There are `n` bytes from `i` to the end of the buffer. -/
def kputs (con : Console) (buf : Nat → UInt8) (i : Nat) : Nat → Except FormatFault Console
  | 0 => .error .outside
  | n + 1 => if buf i = 0 then .ok con else kputs (con.kputch (buf i)) buf (i + 1) n

/-- `kputn`. The buffer is on the stack and holds what was there before. -/
def kputn (con : Console) (stack : Nat → UInt8) (x : UInt32) (base : Int32) :
    Except FormatFault Console :=
  if base > 36 then .ok con
  else do
    let (buf, p) ← formatNumber stack x base
    kputs con buf p (65 - p)

/-- The serial line: what each read of its status register returns, the reads so far and the
characters sent. -/
structure SerialLine where
  status : Nat → UInt8
  reads : Nat
  sent : List UInt8

/-- `SerialCharOut`, which polls `IsTransmitEmpty` at most `fuel` times. -/
def serialCharOut (line : SerialLine) (c : UInt8) : Nat → Except FormatFault SerialLine
  | 0 => .error .waiting
  | fuel + 1 =>
      let line' := { line with reads := line.reads + 1 }
      if line.status line.reads &&& 0x20 ≠ 0 then .ok { line' with sent := line.sent ++ [c] }
      else serialCharOut line' c fuel

/-- `DebugPuts`, for a string in `buf`. -/
def debugPuts (fuel : Nat) (line : SerialLine) (buf : Nat → UInt8) (i : Nat) :
    Nat → Except FormatFault SerialLine
  | 0 => .error .outside
  | n + 1 =>
      if buf i = 0 then .ok line
      else do
        let line ← serialCharOut line (buf i) fuel
        debugPuts fuel line buf (i + 1) n

/-- `dbgputn`. -/
def dbgputn (fuel : Nat) (line : SerialLine) (stack : Nat → UInt8) (x : UInt32) (base : Int32) :
    Except FormatFault SerialLine :=
  if base > 36 then .ok line
  else do
    let (buf, p) ← formatNumber stack x base
    debugPuts fuel line buf p (65 - p)

/-! ## Reading a numeral -/

/-- The digit of base `b` that a character stands for. -/
def readDigit (b : Nat) (c : UInt8) : Option Nat :=
  let d :=
    if 48 ≤ c ∧ c ≤ 57 then some (c.toNat - 48)
    else if 65 ≤ c ∧ c ≤ 90 then some (c.toNat - 65 + 10)
    else none
  d.filter (· < b)

/-- The digits of base `b` that a text stands for. -/
def readDigits (b : Nat) : List UInt8 → Option (List Nat)
  | [] => some []
  | c :: s => (readDigit b c).bind (fun d => (readDigits b s).map (d :: ·))

/-- The text is the canonical numeral of `n` in base `b`. -/
def Writes (b n : Nat) (s : List UInt8) : Prop :=
  ∃ ds, readDigits b s = some ds ∧ IsNumeral b n ds

/-- A character of `digits`. -/
def digitByte (d : Nat) : UInt8 := digits.getD d 0

/-- What is printed for `n` in base `b`. -/
def printedNumber (b n : Nat) : List UInt8 := (numeral b n).map digitByte

section
variable {b d n p : Nat} {c : UInt8} {s t : List UInt8} {x : UInt32} {base : Int32}
  {buf stack : Nat → UInt8} {con : Console} {line : SerialLine}

theorem digits_table : ∀ d < 36, digits[d]? = some (digitByte d) ∧ digitByte d ≠ 0 ∧
    readDigit 36 (digitByte d) = some d := by
  decide

theorem readDigit_digitByte (hd : d < b) (hb : b ≤ 36) : readDigit b (digitByte d) = some d := by
  obtain ⟨-, -, hread⟩ := digits_table d (by omega)
  obtain ⟨hany, -⟩ := Option.filter_eq_some_iff.mp hread
  exact Option.filter_eq_some_iff.mpr ⟨hany, by simpa using hd⟩

theorem readDigits_map {ds : List Nat} (hds : ∀ d ∈ ds, d < b) (hb : b ≤ 36) :
    readDigits b (ds.map digitByte) = some ds := by
  induction ds with
  | nil => rfl
  | cons d ds ih =>
      have hhead := readDigit_digitByte (hds d (List.mem_cons_self)) hb
      have htail := ih (fun d' hd' => hds d' (List.mem_cons_of_mem d hd'))
      rw [List.map_cons, readDigits, hhead, htail]
      rfl

/-- The bounds of the base, as a number. -/
theorem base_bounds (h2 : 2 ≤ base) (h36 : base ≤ 36) :
    1 < base.toNatClampNeg ∧ base.toNatClampNeg ≤ 36 := by
  have hlow : (2 : ℤ) ≤ base.toInt := Int32.le_iff_toInt_le.mp h2
  have hhigh : base.toInt ≤ 36 := Int32.le_iff_toInt_le.mp h36
  unfold Int32.toNatClampNeg
  omega

theorem writes_printedNumber (hb : 1 < b) (hb' : b ≤ 36) : Writes b n (printedNumber b n) :=
  ⟨numeral b n, readDigits_map (isNumeral_numeral hb).below hb', isNumeral_numeral hb⟩

theorem readDigit_inj {c' : UInt8} (h : readDigit b c = some d) (h' : readDigit b c' = some d) :
    c = c' := by
  have hvalue := (Option.filter_eq_some_iff.mp h).1
  have hvalue' := (Option.filter_eq_some_iff.mp h').1
  simp only [UInt8.le_iff_toNat_le, show (48 : UInt8).toNat = 48 from rfl,
    show (57 : UInt8).toNat = 57 from rfl, show (65 : UInt8).toNat = 65 from rfl,
    show (90 : UInt8).toNat = 90 from rfl] at hvalue hvalue'
  apply UInt8.toNat_inj.mp
  split_ifs at hvalue hvalue' <;> simp only [Option.some.injEq] at hvalue hvalue' <;> omega

/-- Only one text stands for the digits. -/
theorem eq_map_of_readDigits {ds : List Nat} (hb : b ≤ 36) (h : readDigits b s = some ds) :
    s = ds.map digitByte := by
  induction s generalizing ds with
  | nil =>
      obtain rfl : [] = ds := Option.some.inj h
      rfl
  | cons c s ih =>
      obtain ⟨d, hd, hrest⟩ := Option.bind_eq_some_iff.mp h
      obtain ⟨ds', hds', rfl⟩ := Option.map_eq_some_iff.mp hrest
      have hlt : d < b := by simpa using (Option.filter_eq_some_iff.mp hd).2
      rw [List.map_cons, ← ih hds', readDigit_inj hd (readDigit_digitByte hlt hb)]

/-- There is one such text. -/
theorem writes_iff (hb : 1 < b) (hb' : b ≤ 36) : Writes b n s ↔ s = printedNumber b n := by
  constructor
  · rintro ⟨ds, hread, hds⟩
    obtain rfl := (isNumeral_iff hb).mp hds
    exact eq_map_of_readDigits hb' hread
  · rintro rfl
    exact writes_printedNumber hb hb'

/-! ## The buffer -/

theorem storeByte_ok {i : Nat} (hi : i < 65) :
    storeByte buf i c = .ok (Function.update buf i c) := if_pos hi

theorem clearBytes_ok (buf : Nat → UInt8) (hn : n ≤ 65) : ∃ buf', clearBytes buf n = .ok buf' := by
  induction n with
  | zero => exact ⟨buf, rfl⟩
  | succ n ih =>
      obtain ⟨buf', hbuf⟩ := ih (by omega)
      refine ⟨Function.update buf' n 0, ?_⟩
      rw [clearBytes, hbuf]
      exact storeByte_ok (by omega)

/-- A character in front of a string. -/
theorem spells_update (ht : Spells (bytesAt buf (p + 1)) t) (hc : c ≠ 0) :
    Spells (bytesAt (Function.update buf p c) p) (c :: t) := by
  refine ⟨by simp [bytesAt], hc, ht.congr (fun i _ => ?_)⟩
  show Function.update buf p c (p + (i + 1)) = buf (p + 1 + i)
  rw [Function.update_of_ne (by omega)]
  congr 1
  omega

theorem FormatFault.ok_bind {α β : Type} {a : α} {f : α → Except FormatFault β} :
    (Except.ok a >>= f) = f a := rfl

/-- One round, for a digit that the table has. -/
theorem digitLoop_succ {base : UInt32} (hbase : base ≠ 0) (hp : p < 65)
    (hdigit : digits[(x % base).toNat]? = some c) :
    digitLoop buf x base (p + 1) =
      if x / base = 0 then .ok (Function.update buf p c, p)
      else digitLoop (Function.update buf p c) (x / base) base p := by
  rw [digitLoop, if_neg hbase, hdigit]
  simp only [storeByte_ok hp, FormatFault.ok_bind]

/-- The loop puts the numeral in front of the string that is there. -/
theorem digitLoop_spells {base : UInt32} (hb : 1 < base.toNat) (hb' : base.toNat ≤ 36)
    (hp : p ≤ 65) (ht : Spells (bytesAt buf p) t)
    (hlen : (printedNumber base.toNat x.toNat).length ≤ p) :
    ∃ buf', digitLoop buf x base p
        = .ok (buf', p - (printedNumber base.toNat x.toNat).length) ∧
      Spells (bytesAt buf' (p - (printedNumber base.toNat x.toNat).length))
        (printedNumber base.toNat x.toNat ++ t) := by
  have hbase : base ≠ 0 := by
    rintro rfl
    exact absurd hb (by decide)
  have hmod : (x % base).toNat = x.toNat % base.toNat := UInt32.toNat_mod x base
  have hdiv : (x / base).toNat = x.toNat / base.toNat := UInt32.toNat_div x base
  induction p generalizing x buf t with
  | zero =>
      have hne : numeral base.toNat x.toNat ≠ [] := (isNumeral_numeral hb).nonempty
      rw [printedNumber, List.length_map] at hlen
      exact absurd (List.length_eq_zero_iff.mp (Nat.le_zero.mp hlen)) hne
  | succ p ih =>
      have hrem : x.toNat % base.toNat < 36 := (Nat.mod_lt _ (by omega)).trans_le hb'
      obtain ⟨hdigit, hnul, -⟩ := digits_table _ hrem
      have hstore := spells_update ht hnul
      rw [← hmod] at hdigit
      rw [digitLoop_succ hbase (by omega) hdigit]
      by_cases hlast : x.toNat < base.toNat
      · have hzero : x / base = 0 := by
          apply UInt32.toNat_inj.mp
          rw [hdiv, Nat.div_eq_of_lt hlast]
          rfl
        rw [Nat.mod_eq_of_lt hlast] at hmod hstore
        rw [if_pos hzero, hmod, printedNumber, numeral_of_lt hlast]
        exact ⟨_, rfl, hstore⟩
      · have hmore : x / base ≠ 0 := by
          intro hzero
          have hquot := Nat.div_pos (Nat.le_of_not_lt hlast) (show 0 < base.toNat by omega)
          rw [← hdiv, hzero] at hquot
          exact absurd hquot (by decide)
        have hsnoc : printedNumber base.toNat x.toNat
            = printedNumber base.toNat (x / base).toNat
              ++ [digitByte (x.toNat % base.toNat)] := by
          rw [printedNumber, numeral_step hb (Nat.le_of_not_lt hlast), List.map_append, ← hdiv]
          rfl
        have hlen' : (printedNumber base.toNat x.toNat).length
            = (printedNumber base.toNat (x / base).toNat).length + 1 := by
          rw [hsnoc, List.length_append, List.length_singleton]
        rw [if_neg hmore, hlen', Nat.add_sub_add_right, hsnoc, List.append_assoc]
        exact ih (by omega) hstore (by omega) (UInt32.toNat_mod _ _) (UInt32.toNat_div _ _)

/-- A 32-bit number has at most 32 digits, in any base. -/
theorem length_printedNumber_le (hb : 1 < b) : (printedNumber b x.toNat).length ≤ 64 := by
  have hlt : x.toNat < b ^ (31 + 1) := by
    calc x.toNat < 2 ^ 32 := x.toNat_lt
      _ ≤ b ^ (31 + 1) := Nat.pow_le_pow_left hb 32
  have hle := length_numeral_le hb hlt
  rw [printedNumber, List.length_map]
  omega

/-- The buffer when the digits are written: the numeral and the NUL at the end of it. -/
theorem formatNumber_spells (h2 : 2 ≤ base) (h36 : base ≤ 36) (stack : Nat → UInt8)
    (x : UInt32) : ∃ buf p, formatNumber stack x base = .ok (buf, p) ∧
      p + (printedNumber base.toNatClampNeg x.toNat).length = 64 ∧
      Spells (bytesAt buf p) (printedNumber base.toNatClampNeg x.toNat) := by
  have hbase : base.toUInt32.toNat = base.toNatClampNeg :=
    Int32.toNat_toUInt32_of_le (Int32.le_trans (by decide) h2)
  obtain ⟨hb, hb'⟩ := base_bounds h2 h36
  have hlen := length_printedNumber_le (x := x) hb
  obtain ⟨buf, hclear⟩ := clearBytes_ok stack (show 64 ≤ 65 by decide)
  have hnul : Spells (bytesAt (Function.update buf 64 0) 64) [] := Function.update_self ..
  rw [← hbase] at hb hb' hlen ⊢
  obtain ⟨buf', hloop, hspells⟩ := digitLoop_spells hb hb' (by decide) hnul hlen
  rw [List.append_nil] at hspells
  refine ⟨buf', _, ?_, by omega, hspells⟩
  rw [formatNumber, hclear, FormatFault.ok_bind, storeByte_ok (by decide), FormatFault.ok_bind]
  exact hloop

/-! ## The two outputs -/

theorem kputs_eq (hs : Spells (bytesAt buf p) s) (hn : s.length < n) :
    kputs con buf p n = .ok (con.putText s) := by
  induction s generalizing con p n with
  | nil =>
      obtain ⟨n, rfl⟩ := Nat.exists_eq_succ_of_ne_zero (Nat.ne_zero_of_lt hn)
      exact if_pos hs
  | cons c s ih =>
      obtain ⟨n, rfl⟩ := Nat.exists_eq_succ_of_ne_zero (Nat.ne_zero_of_lt hn)
      obtain ⟨hc, hc0, hs⟩ := hs
      have hc : buf p = c := hc
      have htail : Spells (bytesAt buf (p + 1)) s :=
        hs.congr (fun i _ => congrArg buf (by omega))
      rw [kputs, if_neg (by rwa [hc]), hc]
      exact ih htail (Nat.lt_of_succ_lt_succ hn)

/-- The line gets ready again and again. -/
def SerialLine.Drains (line : SerialLine) : Prop :=
  ∀ n, ∃ k ≥ n, line.status k &&& 0x20 ≠ 0

/-- With enough polls the character is sent. -/
theorem serialCharOut_ok (hready : ∃ k ≥ line.reads, line.status k &&& 0x20 ≠ 0) (c : UInt8) :
    ∃ reads enough, ∀ fuel ≥ enough, serialCharOut line c fuel
      = .ok { line with reads := reads, sent := line.sent ++ [c] } := by
  obtain ⟨k, hk, hset⟩ := hready
  induction hwait : k - line.reads generalizing line with
  | zero =>
      obtain rfl : k = line.reads := by omega
      refine ⟨line.reads + 1, 1, fun fuel hfuel => ?_⟩
      obtain ⟨fuel, rfl⟩ := Nat.exists_eq_add_of_le' hfuel
      exact if_pos hset
  | succ w ih =>
      by_cases hnow : line.status line.reads &&& 0x20 ≠ 0
      · refine ⟨line.reads + 1, 1, fun fuel hfuel => ?_⟩
        obtain ⟨fuel, rfl⟩ := Nat.exists_eq_add_of_le' hfuel
        exact if_pos hnow
      · obtain ⟨reads, enough, hsend⟩ := @ih { line with reads := line.reads + 1 }
          (by show k ≥ line.reads + 1; omega) hset (by show k - (line.reads + 1) = w; omega)
        refine ⟨reads, enough + 1, fun fuel hfuel => ?_⟩
        obtain ⟨fuel, rfl⟩ := Nat.exists_eq_add_of_le' hfuel
        rw [show fuel + (enough + 1) = fuel + enough + 1 by omega, serialCharOut, if_neg hnow]
        exact hsend (fuel + enough) (Nat.le_add_left _ _)

/-- With enough polls for each character the string is sent. -/
theorem debugPuts_ok (hline : line.Drains) (hs : Spells (bytesAt buf p) s) (hn : s.length < n) :
    ∃ reads enough, ∀ fuel ≥ enough, debugPuts fuel line buf p n
      = .ok { line with reads := reads, sent := line.sent ++ s } := by
  induction s generalizing line p n with
  | nil =>
      obtain ⟨n, rfl⟩ := Nat.exists_eq_succ_of_ne_zero (Nat.ne_zero_of_lt hn)
      refine ⟨line.reads, 0, fun fuel _ => ?_⟩
      have hnul : buf p = 0 := hs
      rw [debugPuts, if_pos hnul, List.append_nil]
  | cons c s ih =>
      obtain ⟨n, rfl⟩ := Nat.exists_eq_succ_of_ne_zero (Nat.ne_zero_of_lt hn)
      obtain ⟨hc, hc0, hs⟩ := hs
      have hc : buf p = c := hc
      have htail : Spells (bytesAt buf (p + 1)) s :=
        hs.congr (fun i _ => congrArg buf (by omega))
      obtain ⟨reads, enough, hsend⟩ := serialCharOut_ok (hline line.reads) c
      have hline' : SerialLine.Drains { line with reads := reads, sent := line.sent ++ [c] } := hline
      obtain ⟨reads', enough', hrest⟩ := ih hline' htail (Nat.lt_of_succ_lt_succ hn)
      refine ⟨reads', enough + enough', fun fuel hfuel => ?_⟩
      rw [debugPuts, if_neg (by rwa [hc]), hc, hsend fuel (by omega), FormatFault.ok_bind,
        hrest fuel (by omega)]
      simp only [List.append_assoc, List.singleton_append]

/-- **Number formatting.** For every number and every base from 2 to 36, whatever the stack held,
`kputn` and `dbgputn` return and print the same text, the canonical numeral of the number. -/
theorem number_format (x : UInt32) (h2 : 2 ≤ base) (h36 : base ≤ 36) (con : Console)
    (stack stack' : Nat → UInt8) (hline : line.Drains) :
    ∃ s, Writes base.toNatClampNeg x.toNat s ∧ kputn con stack x base = .ok (con.putText s) ∧
      ∃ reads enough, ∀ fuel ≥ enough, dbgputn fuel line stack' x base
        = .ok { line with reads := reads, sent := line.sent ++ s } := by
  obtain ⟨hb, hb'⟩ := base_bounds h2 h36
  have hsmall : ¬ base > 36 := Int32.not_lt.mpr h36
  refine ⟨printedNumber base.toNatClampNeg x.toNat, writes_printedNumber hb hb', ?_, ?_⟩
  · obtain ⟨buf, p, hformat, hp, hs⟩ := formatNumber_spells h2 h36 stack x
    rw [kputn, if_neg hsmall, hformat, FormatFault.ok_bind]
    exact kputs_eq hs (by omega)
  · obtain ⟨buf, p, hformat, hp, hs⟩ := formatNumber_spells h2 h36 stack' x
    obtain ⟨reads, enough, hsend⟩ := debugPuts_ok hline hs (show _ < 65 - p by omega)
    refine ⟨reads, enough, fun fuel hfuel => ?_⟩
    rw [dbgputn, if_neg hsmall, hformat, FormatFault.ok_bind]
    exact hsend fuel hfuel

end

/-- 255 in base 16. -/
theorem number_format_hex :
    (kputn ⟨fun _ => 0, 15, 0, 0, 0, []⟩ (fun _ => 88) 255 16
      = .ok (Console.putText ⟨fun _ => 0, 15, 0, 0, 0, []⟩ [70, 70])) ∧
    ∃ reads enough, ∀ fuel ≥ enough,
      dbgputn fuel ⟨fun _ => 0x20, 0, []⟩ (fun _ => 99) 255 16
        = .ok ⟨fun _ => 0x20, reads, [70, 70]⟩ := by
  have hready : SerialLine.Drains ⟨fun _ => 0x20, 0, []⟩ :=
    fun n => ⟨n, le_rfl, show (0x20 : UInt8) &&& 0x20 ≠ 0 by decide⟩
  obtain ⟨s, hs, hscreen, hline⟩ := number_format 255 (show (2 : Int32) ≤ 16 by decide)
    (by decide) ⟨fun _ => 0, 15, 0, 0, 0, []⟩ (fun _ => 88) (fun _ => 99) hready
  obtain rfl : s = [70, 70] := ((writes_iff (by decide) (by decide)).mp hs).trans (by decide)
  exact ⟨hscreen, hline⟩

end DayOS
