import Coconut.Pci
import Mathlib.Data.List.Basic

/-!
# Enumerating PCI functions

`pci::init` walks buses, devices and functions in three nested loops and caches what
answers.  A bus is skipped when nothing answers in its slot 0, a device when it has no
function 0, and functions 1 to 7 of a device that does not say it has them.

The reads do not change the configuration space, so a scan is described by the list of
functions it caches (`Finds`); each loop concatenates the lists of its rounds.  The list
of all present functions, in the order of their addresses, is what the scan should
find.  It finds the part of it that lies on buses with a device in slot 0.
-/
namespace Coconut.Pci

@[simp] def maxDevices : Nat := 64

/-- `CLASS_DISPLAY`. -/
def classDisplay : BitVec 8 := 3#8

/-- `DEVICES[..DEVICE_COUNT]` and `GPU_COUNT`. -/
structure Cache where
  devices : List PciDevice
  gpuCount : Nat

/-- Enter a function, while there is room. -/
def Cache.add (c : Cache) (dev : PciDevice) : Cache :=
  if c.devices.length < maxDevices then
    { devices := c.devices ++ [dev]
      gpuCount := if dev.classCode = classDisplay then c.gpuCount + 1 else c.gpuCount }
  else c

abbrev Scan := StateT Cache (StateM Host)

def probeFunction (wires : Wiring) (bus device function : Nat) : Scan Unit := do
  let id ← configRead32 wires bus device function 0
  let classReg ← configRead32 wires bus device function 0x08
  modify fun c => c.add {
    bus, device, function
    vendorId := id.setWidth 16
    deviceId := (id >>> 16).setWidth 16
    classCode := (classReg >>> 24).setWidth 8
    subclass := (classReg >>> 16).setWidth 8 }

/-- The body of the innermost loop. -/
def scanFunction (wires : Wiring) (bus device function : Nat) : Scan Unit := do
  let id ← configRead32 wires bus device function 0
  if id.setWidth 16 ≠ 0xFFFF#16 then probeFunction wires bus device function

/-- The body of the loop over the devices of a bus. -/
def scanDevice (wires : Wiring) (bus device : Nat) : Scan Unit := do
  let header0 ← configRead32 wires bus device 0 0
  if header0.setWidth 16 = 0xFFFF#16 then return
  probeFunction wires bus device 0
  -- bit 7 of the header type: a multi-function device
  let header3 ← configRead32 wires bus device 0 0x0C
  let headerType : BitVec 8 := (header3 >>> 16).setWidth 8
  if headerType &&& 0x80#8 ≠ 0#8 then
    (List.range' 1 7).forM (scanFunction wires bus device)

/-- The body of the loop over the buses. -/
def scanBus (wires : Wiring) (bus : Nat) : Scan Unit := do
  let slot0 ← configRead32 wires bus 0 0 0
  if slot0 = 0xFFFFFFFF#32 then return
  (List.range 32).forM (scanDevice wires bus)

/-- Scan all PCI buses and cache discovered devices. -/
def init (wires : Wiring) : Scan Unit := do
  set ({ devices := [], gpuCount := 0 } : Cache)
  (List.range 256).forM (scanBus wires)

/-- Find the first PCI device with display class. -/
def findDisplayDevice (c : Cache) : Option PciDevice :=
  c.devices.find? fun dev => dev.classCode = classDisplay

/-! ## What is there to find -/

variable (regs : Register → BitVec 32)

/-- Something answers as this function. -/
def Present (bus device function : Nat) : Prop :=
  (regs ⟨bus, device, function, 0⟩).setWidth 16 ≠ 0xFFFF#16

instance (bus device function : Nat) : Decidable (Present regs bus device function) :=
  inferInstanceAs (Decidable (_ ≠ _))

/-- Bit 7 of the header type of function 0. -/
def MultiFunction (bus device : Nat) : Prop :=
  ((regs ⟨bus, device, 0, 3⟩ >>> 16).setWidth 8 : BitVec 8) &&& 0x80#8 ≠ 0#8

instance (bus device : Nat) : Decidable (MultiFunction regs bus device) :=
  inferInstanceAs (Decidable (_ ≠ _))

/-- A function as it is cached. -/
def describe (bus device function : Nat) : PciDevice where
  bus := bus
  device := device
  function := function
  vendorId := (regs ⟨bus, device, function, 0⟩).setWidth 16
  deviceId := (regs ⟨bus, device, function, 0⟩ >>> 16).setWidth 16
  classCode := (regs ⟨bus, device, function, 2⟩ >>> 24).setWidth 8
  subclass := (regs ⟨bus, device, function, 2⟩ >>> 16).setWidth 8

/-- The function at this address, if there is one. -/
def functionAt (bus device function : Nat) : Option PciDevice :=
  if Present regs bus device function then some (describe regs bus device function) else none

/-- All present functions, in bus/device/function order: the address of a function has
eight bits of bus, five of device and three of function. -/
def presentFunctions : List PciDevice :=
  (List.range 65536).filterMap fun n => functionAt regs (n / 256) (n / 8 % 32) (n % 8)

/-- A configuration space: where no function is, a read returns all ones, and a device with
other functions than 0 has function 0 and says so. -/
structure ConfigSpace : Prop where
  absent : ∀ bus device function, ¬ Present regs bus device function →
    regs ⟨bus, device, function, 0⟩ = 0xFFFFFFFF#32
  multi : ∀ bus device function, 1 ≤ function → function < 8 → Present regs bus device function →
    Present regs bus device 0 ∧ MultiFunction regs bus device

/-! ## What a scan finds -/

def Cache.addAll (c : Cache) (l : List PciDevice) : Cache := l.foldl Cache.add c

/-- The scan caches the functions of `l` and leaves the configuration space alone. -/
def Finds (x : Scan Unit) (l : List PciDevice) : Prop :=
  ∀ (c : Cache) (a : BitVec 32), ∃ a', (x.run c).run ⟨a, regs⟩ = (((), c.addAll l), ⟨a', regs⟩)

theorem Cache.addAll_append (c : Cache) (l l' : List PciDevice) :
    c.addAll (l ++ l') = (c.addAll l).addAll l' := List.foldl_append

variable {regs} {wires : Wiring}

namespace Finds

theorem nothing : Finds regs (pure ()) [] := fun _ a => ⟨a, rfl⟩

theorem andThen {x y : Scan Unit} {l l' : List PciDevice} (hx : Finds regs x l)
    (hy : Finds regs y l') : Finds regs (x >>= fun _ => y) (l ++ l') := by
  intro c a
  obtain ⟨a', ha'⟩ := hx c a
  obtain ⟨a'', ha''⟩ := hy (c.addAll l) a'
  refine ⟨a'', ?_⟩
  change ((y.run ((x.run c).run ⟨a, regs⟩).1.2).run ((x.run c).run ⟨a, regs⟩).2) = _
  rw [ha', Cache.addAll_append]
  exact ha''

/-- A read hands on what the register holds. -/
theorem read {bus device function offset : Nat} (hbus : bus < 256) (hdevice : device < 32)
    (hfunction : function < 8) (hoffset : offset < 256) {f : BitVec 32 → Scan Unit}
    {l : List PciDevice} (hf : Finds regs (f (regs ⟨bus, device, function, offset / 4⟩)) l) :
    Finds regs (do let v ← configRead32 wires bus device function offset; f v) l := by
  intro c a
  have hread := configRead32_run wires (h := ⟨a, regs⟩) hbus hdevice hfunction hoffset
  obtain ⟨a', ha'⟩ := hf c (configAddr bus device function offset)
  refine ⟨a', ?_⟩
  change (((f ((configRead32 wires bus device function offset).run ⟨a, regs⟩).1).run c).run
    ((configRead32 wires bus device function offset).run ⟨a, regs⟩).2) = _
  rw [hread]
  exact ha'

theorem forM {is : List Nat} {f : Nat → Scan Unit} {g : Nat → List PciDevice}
    (h : ∀ i ∈ is, Finds regs (f i) (g i)) : Finds regs (is.forM f) (is.flatMap g) := by
  induction is with
  | nil => exact nothing
  | cons i is ih =>
    rw [List.flatMap_cons]
    exact andThen (h i List.mem_cons_self) (ih fun j hj => h j (List.mem_cons_of_mem _ hj))

theorem probeFunction {bus device function : Nat} (hbus : bus < 256) (hdevice : device < 32)
    (hfunction : function < 8) :
    Finds regs (probeFunction wires bus device function) [describe regs bus device function] := by
  refine read hbus hdevice hfunction (by decide) ?_
  refine read hbus hdevice hfunction (by decide) ?_
  exact fun _ a => ⟨a, rfl⟩

theorem scanFunction {bus device function : Nat} (hbus : bus < 256) (hdevice : device < 32)
    (hfunction : function < 8) : Finds regs (scanFunction wires bus device function)
      (functionAt regs bus device function).toList := by
  refine read hbus hdevice hfunction (by decide) ?_
  unfold functionAt
  by_cases h : Present regs bus device function
  · rw [if_pos h, if_pos (show (regs ⟨bus, device, function, 0 / 4⟩).setWidth 16 ≠ 0xFFFF#16 from h)]
    exact probeFunction hbus hdevice hfunction
  · rw [if_neg h, if_neg (show ¬ (regs ⟨bus, device, function, 0 / 4⟩).setWidth 16 ≠ 0xFFFF#16 from h)]
    exact nothing

end Finds

variable (regs) in
/-- The functions of one device, in order. -/
def deviceFunctions (bus device : Nat) : List PciDevice :=
  (List.range 8).filterMap (functionAt regs bus device)

theorem flatMap_toList {α β : Type} (f : α → Option β) (l : List α) :
    (l.flatMap fun a => (f a).toList) = l.filterMap f := by
  induction l with
  | nil => rfl
  | cons a l ih =>
    rw [List.flatMap_cons, ih, List.filterMap_cons]
    cases f a <;> rfl

theorem deviceFunctions_eq (bus device : Nat) : deviceFunctions regs bus device =
    (functionAt regs bus device 0).toList ++
      (List.range' 1 7).flatMap fun function => (functionAt regs bus device function).toList := by
  rw [deviceFunctions, ← flatMap_toList]
  rfl

/-- A device that does not say it has more than function 0 has no more. -/
theorem ConfigSpace.rest_absent (h : ConfigSpace regs) {bus device : Nat}
    (hsingle : ¬ (Present regs bus device 0 ∧ MultiFunction regs bus device)) :
    (List.range' 1 7).flatMap (fun function => (functionAt regs bus device function).toList) = [] := by
  rw [List.flatMap_eq_nil_iff]
  intro function hfunction
  have hbounds := List.mem_range'_1.mp hfunction
  rw [functionAt, if_neg fun hpresent => hsingle (h.multi bus device function (by omega) (by omega) hpresent)]
  rfl

theorem Finds.scanDevice (h : ConfigSpace regs) {bus device : Nat} (hbus : bus < 256)
    (hdevice : device < 32) :
    Finds regs (scanDevice wires bus device) (deviceFunctions regs bus device) := by
  refine read hbus hdevice (by decide) (by decide) ?_
  rw [deviceFunctions_eq]
  by_cases hpresent : Present regs bus device 0
  · rw [if_neg (show ¬ (regs ⟨bus, device, 0, 0 / 4⟩).setWidth 16 = 0xFFFF#16 from hpresent),
      functionAt, if_pos hpresent]
    refine andThen (probeFunction hbus hdevice (by decide)) ?_
    refine read hbus hdevice (by decide) (by decide) ?_
    by_cases hmulti : MultiFunction regs bus device
    · simp only [if_pos (show ((regs ⟨bus, device, 0, 0x0C / 4⟩ >>> 16).setWidth 8 : BitVec 8) &&& 0x80#8 ≠ 0#8
        from hmulti)]
      exact forM fun function hfunction => scanFunction hbus hdevice
        (by have := List.mem_range'_1.mp hfunction; omega)
    · simp only [if_neg (show ¬ ((regs ⟨bus, device, 0, 0x0C / 4⟩ >>> 16).setWidth 8 : BitVec 8) &&& 0x80#8 ≠ 0#8
        from hmulti)]
      rw [h.rest_absent fun hc => hmulti hc.2]
      exact nothing
  · rw [if_pos (show (regs ⟨bus, device, 0, 0 / 4⟩).setWidth 16 = 0xFFFF#16 from Decidable.of_not_not hpresent),
      functionAt, if_neg hpresent, h.rest_absent fun hc => hpresent hc.1]
    exact nothing

variable (regs) in
/-- What a scan of one bus finds. -/
def busFunctions (bus : Nat) : List PciDevice :=
  if Present regs bus 0 0 then (List.range 32).flatMap (deviceFunctions regs bus) else []

theorem Finds.scanBus (h : ConfigSpace regs) {bus : Nat} (hbus : bus < 256) :
    Finds regs (scanBus wires bus) (busFunctions regs bus) := by
  refine read hbus (by decide) (by decide) (by decide) ?_
  unfold busFunctions
  by_cases hpresent : Present regs bus 0 0
  · have hanswer : regs ⟨bus, 0, 0, 0 / 4⟩ ≠ 0xFFFFFFFF#32 := by
      intro hones
      apply hpresent
      rw [show (regs ⟨bus, 0, 0, 0⟩ : BitVec 32) = 0xFFFFFFFF#32 from hones]
      rfl
    rw [if_neg hanswer, if_pos hpresent]
    exact forM fun device hdevice => scanDevice h hbus (List.mem_range.mp hdevice)
  · rw [if_pos (show regs ⟨bus, 0, 0, 0 / 4⟩ = 0xFFFFFFFF#32 from h.absent bus 0 0 hpresent),
      if_neg hpresent]
    exact nothing

/-- The whole scan, from any cache and any address in the latch. -/
theorem init_run (h : ConfigSpace regs) (wires : Wiring) (c : Cache) (a : BitVec 32) :
    ∃ a', ((init wires).run c).run ⟨a, regs⟩ =
      (((), (Cache.mk [] 0).addAll ((List.range 256).flatMap (busFunctions regs))), ⟨a', regs⟩) := by
  have hscan : Finds regs ((List.range 256).forM (scanBus wires)) _ :=
    Finds.forM fun bus hbus => Finds.scanBus h (List.mem_range.mp hbus)
  have hset : ∀ buses : List Nat,
      ((do set (Cache.mk [] 0); buses.forM (scanBus wires) : Scan Unit).run c).run ⟨a, regs⟩ =
        ((buses.forM (scanBus wires)).run ⟨[], 0⟩).run ⟨a, regs⟩ := fun _ => rfl
  rw [init, hset]
  exact hscan ⟨[], 0⟩ a

theorem Cache.devices_addAll : ∀ (l : List PciDevice) (c : Cache), c.devices.length ≤ maxDevices →
    (c.addAll l).devices = c.devices ++ l.take (maxDevices - c.devices.length)
  | [], c, _ => by
    rw [List.take_nil, List.append_nil]
    rfl
  | dev :: l, c, hc => by
    change ((c.add dev).addAll l).devices = _
    unfold Cache.add
    by_cases hroom : c.devices.length < maxDevices
    · have hsub : maxDevices - c.devices.length =
          (maxDevices - (c.devices ++ [dev]).length) + 1 := by
        rw [List.length_append, List.length_singleton]
        omega
      rw [if_pos hroom, Cache.devices_addAll l _ (by
        rw [List.length_append, List.length_singleton]; exact hroom), hsub, List.take_succ_cons,
        List.append_assoc, List.singleton_append]
    · have hfull : maxDevices - c.devices.length = 0 := by omega
      rw [if_neg hroom, Cache.devices_addAll l c hc, hfull, List.take_zero, List.take_zero]

/-! ## What the scan leaves out -/

theorem range_mul (m n : Nat) :
    List.range (m * n) = (List.range m).flatMap fun i => (List.range n).map fun j => i * n + j := by
  induction m with
  | zero => rw [Nat.zero_mul]; rfl
  | succ m ih =>
    rw [Nat.succ_mul, List.range_add, ih, List.range_succ, List.flatMap_append, List.flatMap_singleton]

/-- The present functions, bus by bus and device by device. -/
theorem presentFunctions_eq : presentFunctions regs =
    (List.range 256).flatMap fun bus => (List.range 32).flatMap (deviceFunctions regs bus) := by
  have hdevices : ∀ bus, (List.range 256).filterMap (fun n => functionAt regs bus (n / 8 % 32) (n % 8)) =
      (List.range 32).flatMap (deviceFunctions regs bus) := by
    intro bus
    rw [show 256 = 32 * 8 from rfl, range_mul, List.filterMap_flatMap]
    apply List.flatMap_congr
    intro device hdevice
    have hlt := List.mem_range.mp hdevice
    rw [List.filterMap_map, deviceFunctions]
    apply List.filterMap_congr
    intro function hfunction
    have hlt' := List.mem_range.mp hfunction
    change functionAt regs bus ((device * 8 + function) / 8 % 32) ((device * 8 + function) % 8) = _
    rw [show (device * 8 + function) / 8 % 32 = device by omega,
      show (device * 8 + function) % 8 = function by omega]
  rw [presentFunctions, show 65536 = 256 * 256 from rfl, range_mul, List.filterMap_flatMap]
  apply List.flatMap_congr
  intro bus _
  rw [← hdevices bus, List.filterMap_map]
  apply List.filterMap_congr
  intro n hn
  have hlt := List.mem_range.mp hn
  change functionAt regs ((bus * 256 + n) / 256) ((bus * 256 + n) / 8 % 32) ((bus * 256 + n) % 8) = _
  rw [show (bus * 256 + n) / 256 = bus by omega,
    show (bus * 256 + n) / 8 % 32 = n / 8 % 32 by omega, show (bus * 256 + n) % 8 = n % 8 by omega]

theorem mem_deviceFunctions {bus device : Nat} {dev : PciDevice}
    (h : dev ∈ deviceFunctions regs bus device) : dev.bus = bus := by
  obtain ⟨function, -, hfunction⟩ := List.mem_filterMap.mp h
  unfold functionAt at hfunction
  split at hfunction
  · rw [← Option.some.inj hfunction]
    rfl
  · cases hfunction

/-- The scan finds the functions on buses with a device in slot 0. -/
theorem busFunctions_eq : (List.range 256).flatMap (busFunctions regs) =
    (presentFunctions regs).filter fun dev => Present regs dev.bus 0 0 := by
  rw [presentFunctions_eq, List.filter_flatMap]
  congr 1
  funext bus
  unfold busFunctions
  have hbus : ∀ dev ∈ (List.range 32).flatMap (deviceFunctions regs bus), dev.bus = bus := by
    intro dev hdev
    obtain ⟨device, -, hmem⟩ := List.mem_flatMap.mp hdev
    exact mem_deviceFunctions hmem
  by_cases hpresent : Present regs bus 0 0
  · rw [if_pos hpresent, List.filter_eq_self.mpr]
    intro dev hdev
    rw [hbus dev hdev]
    exact decide_eq_true hpresent
  · rw [if_neg hpresent, List.filter_eq_nil_iff.mpr]
    intro dev hdev
    rw [hbus dev hdev]
    exact fun hc => hpresent (of_decide_eq_true hc)

theorem take_filter_eq_take {α : Type} {p : α → Bool} {l : List α} {n : Nat} :
    (l.filter p).take n = l.take n ↔ ∀ x ∈ l.take n, p x = true := by
  constructor
  · intro heq x hx
    rw [← heq] at hx
    exact (List.mem_filter.mp (List.mem_of_mem_take hx)).2
  · intro hall
    have hsplit : l.filter p = l.take n ++ (l.drop n).filter p := by
      calc l.filter p = (l.take n ++ l.drop n).filter p := by rw [List.take_append_drop]
        _ = _ := by rw [List.filter_append, List.filter_eq_self.mpr hall]
    rw [hsplit]
    by_cases hlen : n ≤ l.length
    · rw [List.take_append_of_le_length (by rw [List.length_take]; omega), List.take_take, Nat.min_self]
    · rw [List.drop_eq_nil_of_le (by omega), List.filter_nil, List.append_nil, List.take_take, Nat.min_self]

/-! ## Completeness -/

/-- The cache holds the first present functions, each once and in order, and a display
controller among them is found. -/
structure Enumerates (regs : Register → BitVec 32) (c : Cache) : Prop where
  cached : c.devices = (presentFunctions regs).take maxDevices
  display : (∃ dev ∈ (presentFunctions regs).take maxDevices, dev.classCode = classDisplay) →
    ∃ dev, findDisplayDevice c = some dev ∧ dev.classCode = classDisplay

theorem findDisplayDevice_of_mem {c : Cache} {dev : PciDevice} (hmem : dev ∈ c.devices)
    (hclass : dev.classCode = classDisplay) :
    ∃ found, findDisplayDevice c = some found ∧ found.classCode = classDisplay := by
  cases hfind : findDisplayDevice c with
  | none => exact absurd hclass (by simpa using List.find?_eq_none.mp hfind dev hmem)
  | some found => exact ⟨found, rfl, by simpa using List.find?_some hfind⟩

/-- What `init` caches. -/
theorem init_devices (h : ConfigSpace regs) (wires : Wiring) (c : Cache) (a : BitVec 32) :
    ∃ c' a', ((init wires).run c).run ⟨a, regs⟩ = (((), c'), ⟨a', regs⟩) ∧
      c'.devices = ((presentFunctions regs).filter fun dev => Present regs dev.bus 0 0).take maxDevices := by
  obtain ⟨a', ha'⟩ := init_run h wires c a
  refine ⟨_, a', ha', ?_⟩
  rw [Cache.devices_addAll _ _ (Nat.zero_le _), busFunctions_eq, List.nil_append, List.length_nil,
    Nat.sub_zero]

/-- Enumeration is complete just when each of the first present functions lies on a bus
with a device in slot 0. -/
theorem pci_init_complete_iff {regs : Register → BitVec 32} (h : ConfigSpace regs) (wires : Wiring)
    (c : Cache) (a : BitVec 32) :
    ∃ c' a', ((init wires).run c).run ⟨a, regs⟩ = (((), c'), ⟨a', regs⟩) ∧
      (Enumerates regs c' ↔
        ∀ dev ∈ (presentFunctions regs).take maxDevices, Present regs dev.bus 0 0) := by
  obtain ⟨c', a', hrun, hdevices⟩ := init_devices h wires c a
  refine ⟨c', a', hrun, ?_, ?_⟩
  · intro henum dev hdev
    have htake := take_filter_eq_take.mp (hdevices.symm.trans henum.cached)
    exact of_decide_eq_true (htake dev hdev)
  · intro hslot
    have hcached : c'.devices = (presentFunctions regs).take maxDevices :=
      hdevices.trans (take_filter_eq_take.mpr fun dev hdev => decide_eq_true (hslot dev hdev))
    refine ⟨hcached, ?_⟩
    rintro ⟨dev, hdev, hclass⟩
    exact findDisplayDevice_of_mem (hcached ▸ hdev) hclass

/-- A host bridge at 00:00.0 and a display controller in slot 1 of the given bus. -/
def twoDevices (bus : Nat) : Register → BitVec 32 := fun r =>
  if r.bus = 0 ∧ r.device = 0 ∧ r.function = 0 then
    match r.index with
    | 0 => 0x12378086#32
    | 2 => 0x06000000#32
    | _ => 0#32
  else if r.bus = bus ∧ r.device = 1 ∧ r.function = 0 then
    match r.index with
    | 0 => 0x11111234#32
    | 2 => 0x03000000#32
    | _ => 0#32
  else 0xFFFFFFFF#32

/-- Nothing else answers. -/
theorem twoDevices_present {bus b d f : Nat} (h : Present (twoDevices bus) b d f) :
    f = 0 ∧ (b = 0 ∧ d = 0 ∨ b = bus ∧ d = 1) := by
  unfold Present twoDevices at h
  simp only at h
  split at h
  · rename_i hbridge
    exact ⟨hbridge.2.2, .inl ⟨hbridge.1, hbridge.2.1⟩⟩
  · split at h
    · rename_i hdisplay
      exact ⟨hdisplay.2.2, .inr ⟨hdisplay.1, hdisplay.2.1⟩⟩
    · exact absurd rfl h

theorem twoDevices_space (bus : Nat) : ConfigSpace (twoDevices bus) where
  absent b d f habsent := by
    unfold Present twoDevices at habsent
    unfold twoDevices
    simp only at habsent ⊢
    split
    · rename_i hbridge
      rw [if_pos hbridge] at habsent
      exact absurd (show (0x12378086#32).setWidth 16 ≠ 0xFFFF#16 by decide) habsent
    · rename_i hbridge
      rw [if_neg hbridge] at habsent
      split
      · rename_i hdisplay
        rw [if_pos hdisplay] at habsent
        exact absurd (show (0x11111234#32).setWidth 16 ≠ 0xFFFF#16 by decide) habsent
      · rfl
  multi b d f hpos _ hpresent := by
    have := (twoDevices_present hpresent).1
    omega

theorem pci_init_complete_iff_bus0 : ConfigSpace (twoDevices 0) ∧
    ∃ c' a', ((init fun _ old _ => old).run ⟨[], 0⟩).run ⟨0#32, twoDevices 0⟩ =
      (((), c'), ⟨a', twoDevices 0⟩) ∧ (Enumerates (twoDevices 0) c' ↔
        ∀ dev ∈ (presentFunctions (twoDevices 0)).take maxDevices, Present (twoDevices 0) dev.bus 0 0) :=
  ⟨twoDevices_space 0, pci_init_complete_iff (twoDevices_space 0) _ _ _⟩

set_option maxRecDepth 100000 in
theorem twoDevices_functions : presentFunctions (twoDevices 1) =
    [describe (twoDevices 1) 0 0 0, describe (twoDevices 1) 1 1 0] := by
  have hrest : ((List.range 65271).map (265 + ·)).filterMap
      (fun n => functionAt (twoDevices 1) (n / 256) (n / 8 % 32) (n % 8)) = [] := by
    rw [List.filterMap_eq_nil_iff]
    intro n hn
    obtain ⟨k, -, rfl⟩ := List.mem_map.mp hn
    refine if_neg fun hpresent => ?_
    have := twoDevices_present hpresent
    omega
  rw [presentFunctions, show 65536 = 265 + 65271 from rfl, List.range_add, List.filterMap_append,
    hrest, List.append_nil]
  decide +kernel

/-- A display controller in slot 1 of a bus without a slot 0 is among the first present
functions and is not found. -/
theorem display_missed : ConfigSpace (twoDevices 1) ∧
    (∃ dev ∈ (presentFunctions (twoDevices 1)).take maxDevices, dev.classCode = classDisplay) ∧
    ∃ c' a', ((init fun _ old _ => old).run ⟨[], 0⟩).run ⟨0#32, twoDevices 1⟩ =
      (((), c'), ⟨a', twoDevices 1⟩) ∧ ¬ Enumerates (twoDevices 1) c' ∧ findDisplayDevice c' = none := by
  obtain ⟨c', a', hrun, hdevices⟩ := init_devices (twoDevices_space 1) (fun _ old _ => old) ⟨[], 0⟩ 0#32
  rw [twoDevices_functions] at hdevices
  have hone : c'.devices = [describe (twoDevices 1) 0 0 0] := by
    rw [hdevices]
    decide
  have hnone : findDisplayDevice c' = none := by
    rw [findDisplayDevice, hone]
    decide
  have hamong : ∃ dev ∈ (presentFunctions (twoDevices 1)).take maxDevices,
      dev.classCode = classDisplay := by
    rw [twoDevices_functions]
    exact ⟨describe (twoDevices 1) 1 1 0, by decide, by decide⟩
  refine ⟨twoDevices_space 1, hamong, c', a', hrun, fun henum => ?_, hnone⟩
  obtain ⟨dev, hdev, -⟩ := henum.display hamong
  rw [hnone] at hdev
  cases hdev

end Coconut.Pci
