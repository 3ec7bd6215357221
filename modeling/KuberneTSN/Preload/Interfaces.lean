import KuberneTSN.Preload.Applications

/-!
# The interfaces of a program

Before the `main` of a program the library asks the host for its addresses and keeps a list of
interfaces, by which `sendmsg` later decides what it schedules.

* `listInterfaces_eq`, `queryMacs_address` — the list has the first internet address of every
  interface, whatever the host answers in the second pass;
* `queryInterfaces_address` — so the library knows exactly these, each once;
* `map_address_find`, `map_address_getByNet` — a search by index or by network is one in them;
* `destinations_exact` — and `sendmsg` schedules exactly the messages for an interface that has an
  internet address, or for the network of the first internet address of one.
-/

namespace KuberneTSN.Preload

open Lib KuberneTSN.Sched

/-! ## The host -/

/-- `struct ifaddrs`, as far as it is read. -/
structure Ifaddr where
  name : String
  /-- `ifa_addr`, or `none` for `NULL`: the family, and `s_addr` of an internet address. -/
  addr : Option (Int32 × UInt32)
  /-- `s_addr` of `ifa_netmask`, or `none` for `NULL`. -/
  netmask : Option UInt32
  deriving DecidableEq, Repr

/-- What the host answers. -/
structure Net where
  /-- Whether `getnameinfo` can print an address. -/
  getnameinfo : UInt32 → Bool
  ifNametoindex : String → Int32
  /-- `SIOCGIFHWADDR` on a descriptor. -/
  hwaddr : Int32 → String → Option (Vector UInt8 6)

/-- How the library ends a program. -/
inductive Stop where
  /-- `exit(EXIT_FAILURE)`. -/
  | exit
  /-- A copy from `NULL`. -/
  | fault
  deriving DecidableEq, Repr

/-- Source: `libktsn.c` `struct kt_interface`. -/
structure NamedInterface extends Interface where
  name : String
  deriving DecidableEq, Repr

/-! ## The two passes -/

/-- Source: `libktsn.c` `kt_interface_exists`. -/
def ktInterfaceExists (l : List NamedInterface) (ifindex : Int32) : Bool :=
  (lookupKey (fun i : NamedInterface => i.ifindex) ifindex l).isSome

/-- One round of the first loop; `junk` is what the memory of a new node holds in place of its MAC.
Source: `libktsn.c` `query_interfaces`, lines 509–537. -/
def addIfaddr (net : Net) (junk : Vector UInt8 6) (l : List NamedInterface) (ifa : Ifaddr) :
    Except Stop (List NamedInterface) :=
  match ifa.addr with
  | none => .ok l
  | some (family, sAddr) =>
      if family = afInet then
        if ¬ net.getnameinfo sAddr then .error .exit
        else
          let ifindex := net.ifNametoindex ifa.name
          if ktInterfaceExists l ifindex then .ok l
          else
            match ifa.netmask with
            | none => .error .fault
            | some netmask => .ok (⟨⟨⟨sAddr, junk⟩, ifindex, netmask⟩, ifa.name⟩ :: l)
      else .ok l

/-- The first loop. -/
def listInterfaces (net : Net) (junk : Vector UInt8 6) :
    List Ifaddr → List NamedInterface → Except Stop (List NamedInterface)
  | [], l => .ok l
  | ifa :: rest, l => do
      let l ← addIfaddr net junk l ifa
      listInterfaces net junk rest l

/-- What the host answers to the calls of one round of the second loop: the descriptor that libc
opens, the value that the caller of the library's `socket` finds in place of it, and the answer of
libc's `close`. -/
structure MacAnswers where
  fd : Int32
  junk : Int32
  closed : Int32
  deriving DecidableEq, Repr

/-- The calls of `socket` and `close` are those of the library itself, so that they go through its
list of sockets. Source: `libktsn.c` `query_and_add_mac_address`. -/
def queryAndAddMacAddress (net : Net) (ans : MacAnswers) (sockets : List KtSocket)
    (iface : NamedInterface) : Except Stop (NamedInterface × List KtSocket) :=
  let (ret, sockets) := socket sockets afInet ans.fd
  let sock := ret.getD ans.junk
  if sock < 0 then .error .exit
  else
    match net.hwaddr sock iface.name with
    | none => .error .exit
    | some mac => .ok ({ iface with mac := mac }, (close sockets sock ans.closed).2)

/-- The second loop, from its round `n` on. -/
def queryMacs (net : Net) (answers : ℕ → MacAnswers) :
    ℕ → List NamedInterface → List KtSocket → Except Stop (List NamedInterface × List KtSocket)
  | _, [], sockets => .ok ([], sockets)
  | n, iface :: rest, sockets => do
      let (iface, sockets) ← queryAndAddMacAddress net (answers n) sockets iface
      let (rest, sockets) ← queryMacs net answers (n + 1) rest sockets
      .ok (iface :: rest, sockets)

/-- Source: `libktsn.c` `query_interfaces`, where `getifaddrs` answers `ifaddrs`, or fails. -/
def queryInterfaces (net : Net) (junk : Vector UInt8 6) (answers : ℕ → MacAnswers)
    (sockets : List KtSocket) (ifaddrs : Option (List Ifaddr)) :
    Except Stop (List NamedInterface × List KtSocket) :=
  match ifaddrs with
  | none => .error .exit
  | some ifaddrs => do
      let l ← listInterfaces net junk ifaddrs []
      queryMacs net answers 0 l sockets

/-! ## The list -/

/-- An internet address of an interface. -/
structure Address where
  ifindex : Int32
  addr : UInt32
  netmask : UInt32
  deriving DecidableEq, Repr

/-- The address that the library has of an interface. -/
def Interface.address (i : Interface) : Address := ⟨i.ifindex, i.addr, i.netmask⟩

/-- The interface that an entry of the host stands for, if it has an internet address. -/
def inetInterface (net : Net) (junk : Vector UInt8 6) (ifa : Ifaddr) : Option NamedInterface := do
  let (family, sAddr) ← ifa.addr
  let netmask ← ifa.netmask
  if family = afInet then some ⟨⟨⟨sAddr, junk⟩, net.ifNametoindex ifa.name, netmask⟩, ifa.name⟩
  else none

/-- The internet address of an entry of the host. -/
def inetAddress (net : Net) (ifa : Ifaddr) : Option Address := do
  let (family, sAddr) ← ifa.addr
  let netmask ← ifa.netmask
  if family = afInet then some ⟨net.ifNametoindex ifa.name, sAddr, netmask⟩ else none

/-- The first internet address of an interface. -/
def firstAddress (net : Net) (ifaddrs : List Ifaddr) (ifindex : Int32) : Option Address :=
  lookupKey Address.ifindex ifindex (ifaddrs.filterMap (inetAddress net))

variable {net : Net} {junk : Vector UInt8 6} {answers : ℕ → MacAnswers} {l l' : List NamedInterface}
  {sockets sockets' : List KtSocket} {ifaddrs : List Ifaddr} {ifa : Ifaddr}

theorem map_address_inetInterface (ifa : Ifaddr) :
    (inetInterface net junk ifa).map (fun i => i.toInterface.address) = inetAddress net ifa := by
  obtain ⟨name, _ | ⟨family, sAddr⟩, _ | netmask⟩ := ifa
  · rfl
  · rfl
  · rfl
  · simp only [inetInterface, inetAddress, Option.bind_eq_bind, Option.bind_some]
    split_ifs <;> rfl

/-- A round of the first loop that goes on inserts the interface of the entry, if it is new. -/
theorem addIfaddr_eq (h : addIfaddr net junk l ifa = .ok l') :
    l' = (inetInterface net junk ifa).elim l (insertNew (fun i => i.ifindex) l) := by
  obtain ⟨name, _ | ⟨family, sAddr⟩, netmask⟩ := ifa
  · exact (Except.ok.inj h).symm
  · simp only [addIfaddr] at h
    by_cases hfamily : family = afInet
    · by_cases hname : net.getnameinfo sAddr
      · rw [if_pos hfamily, if_neg (not_not.mpr hname)] at h
        simp only [inetInterface, Option.bind_eq_bind, Option.bind_some, if_pos hfamily]
        by_cases hold : ktInterfaceExists l (net.ifNametoindex name)
        · rw [if_pos hold, Except.ok.injEq] at h
          subst h
          cases netmask with
          | none => rfl
          | some netmask => exact (if_pos hold).symm
        · rw [if_neg hold] at h
          cases netmask with
          | none => cases h
          | some netmask =>
              obtain rfl := Except.ok.inj h
              exact (if_neg hold).symm
      · rw [if_pos hfamily, if_pos hname] at h
        cases h
    · rw [if_neg hfamily, Except.ok.injEq] at h
      subst h
      cases netmask with
      | none => rfl
      | some netmask =>
          simp only [inetInterface, Option.bind_eq_bind, Option.bind_some, if_neg hfamily,
            Option.elim_none]

/-- **The list of the first loop**: the first internet address of every interface. -/
theorem listInterfaces_eq (h : listInterfaces net junk ifaddrs l = .ok l') :
    l' = (ifaddrs.filterMap (inetInterface net junk)).foldl (insertNew fun i => i.ifindex) l := by
  induction ifaddrs generalizing l with
  | nil => exact (Except.ok.inj h).symm
  | cons ifa rest ih =>
      unfold listInterfaces at h
      cases hadd : addIfaddr net junk l ifa with
      | error stop =>
          rw [hadd] at h
          cases h
      | ok l₁ =>
          rw [hadd] at h
          rw [ih h, addIfaddr_eq hadd, List.filterMap_cons]
          cases inetInterface net junk ifa <;> rfl

/-- A round of the second loop changes the MAC only. -/
theorem queryAndAddMacAddress_address {ans : MacAnswers} {iface iface' : NamedInterface}
    (h : queryAndAddMacAddress net ans sockets iface = .ok (iface', sockets')) :
    iface'.toInterface.address = iface.toInterface.address := by
  unfold queryAndAddMacAddress at h
  generalize socket sockets afInet ans.fd = opened at h
  dsimp only at h
  split_ifs at h
  cases hmac : net.hwaddr (opened.1.getD ans.junk) iface.name with
  | none =>
      rw [hmac] at h
      cases h
  | some mac =>
      rw [hmac] at h
      obtain ⟨rfl, -⟩ := Prod.mk.inj (Except.ok.inj h)
      rfl

/-- **The second loop changes no address.** -/
theorem queryMacs_address {n : ℕ} (h : queryMacs net answers n l sockets = .ok (l', sockets')) :
    l'.map (fun i => i.toInterface.address) = l.map fun i => i.toInterface.address := by
  induction l generalizing n sockets l' with
  | nil =>
      obtain ⟨rfl, -⟩ := Prod.mk.inj (Except.ok.inj h)
      rfl
  | cons iface rest ih =>
      unfold queryMacs at h
      cases hone : queryAndAddMacAddress net (answers n) sockets iface with
      | error stop =>
          rw [hone] at h
          cases h
      | ok first =>
          obtain ⟨iface₁, sockets₁⟩ := first
          rw [hone] at h
          cases hrest : queryMacs net answers (n + 1) rest sockets₁ with
          | error stop =>
              simp only [bind, Except.bind, hrest] at h
              cases h
          | ok others =>
              obtain ⟨rest₁, sockets₂⟩ := others
              simp only [bind, Except.bind, hrest, Except.ok.injEq, Prod.mk.injEq] at h
              obtain ⟨rfl, rfl⟩ := h
              rw [List.map_cons, List.map_cons, queryAndAddMacAddress_address hone, ih hrest]

/-- **What the library knows of the host**: the first internet address of every interface, once. -/
theorem queryInterfaces_address
    (h : queryInterfaces net junk answers sockets (some ifaddrs) = .ok (l, sockets')) :
    UniqueKeys Address.ifindex (l.map fun i => i.toInterface.address) ∧
      ∀ k, lookupKey Address.ifindex k (l.map fun i => i.toInterface.address) =
        firstAddress net ifaddrs k := by
  cases hlist : listInterfaces net junk ifaddrs [] with
  | error stop =>
      simp only [queryInterfaces, hlist] at h
      cases h
  | ok l₁ =>
      simp only [queryInterfaces, hlist] at h
      have hmacs := queryMacs_address h
      have hl := listInterfaces_eq hlist
      rw [hmacs]
      constructor
      · have hnil : UniqueKeys (fun i : NamedInterface => i.ifindex) [] := List.nodup_nil
        unfold UniqueKeys
        rw [List.map_map, hl]
        exact uniqueKeys_foldl_insertNew hnil _
      · intro k
        have hfirst : ifaddrs.filterMap (inetAddress net) =
            (ifaddrs.filterMap (inetInterface net junk)).map fun i => i.toInterface.address := by
          rw [List.map_filterMap]
          exact List.filterMap_congr fun ifa _ => (map_address_inetInterface ifa).symm
        unfold firstAddress
        rw [hfirst, lookupKey_map, lookupKey_map, hl]
        exact congrArg _ (lookupKey_foldl_insertNew _)

/-! ## Searches -/

/-- A search by index. -/
theorem map_address_find (interfaces : List Interface) (ifindex : Int32) :
    (ktInterfaceFind interfaces ifindex).map Interface.address =
      lookupKey Address.ifindex ifindex (interfaces.map Interface.address) := by
  rw [lookupKey_map]
  rfl

/-- A search by network. -/
theorem map_address_getByNet (interfaces : List Interface) (addr : SockAddr) :
    (ktInterfaceGetByNet interfaces (some addr)).map Interface.address =
      (interfaces.map Interface.address).find? fun a =>
        isSameSubnetwork a.addr addr.sAddr a.netmask := by
  rw [List.find?_map]
  rfl

/-- The addresses of the library, as those of the host. -/
theorem mem_address_iff
    (h : queryInterfaces net junk answers sockets (some ifaddrs) = .ok (l, sockets')) {a : Address} :
    a ∈ (l.map NamedInterface.toInterface).map Interface.address ↔
      firstAddress net ifaddrs a.ifindex = some a := by
  obtain ⟨hunique, hlookup⟩ := queryInterfaces_address h
  rw [List.map_map, ← hlookup]
  exact mem_iff_lookupKey hunique

variable {lib : Library} {msg : Msghdr} {txtime : UInt64} {req : SendReq}

/-- A message that `sendmsg_packet` schedules. -/
theorem planPacket_eq_queue : planPacket lib msg txtime = .queue req ↔
    ∃ addr i, msg.name = some addr ∧ ktInterfaceFind lib.interfaces addr.sllIfindex = some i ∧
      sendReq msg .packet i txtime = req := by
  unfold planPacket
  cases hname : msg.name with
  | none => simp
  | some addr =>
      dsimp only
      cases hfind : ktInterfaceFind lib.interfaces addr.sllIfindex with
      | none => simp [hfind]
      | some i => simp [hfind]

/-- A message that `sendmsg_inet` schedules. -/
theorem planInet_eq_queue : planInet lib msg txtime = .queue req ↔
    ∃ addr i, msg.name = some addr ∧ ktInterfaceGetByNet lib.interfaces (some addr) = some i ∧
      sendReq msg (.inet addr.sAddr addr.sinPort) i txtime = req := by
  unfold planInet
  cases hname : msg.name with
  | none => simp
  | some addr =>
      cases hfind : ktInterfaceGetByNet lib.interfaces (some addr) with
      | none => simp [hfind]
      | some i => simp [hfind]

/-- **What `sendmsg` schedules.** On a host with the addresses `ifaddrs`, where the library comes
up: on a packet socket the messages for an interface that has an internet address, and on an
internet socket the messages for the network of the first internet address of some interface. The
first internet address of that interface is their source. -/
theorem destinations_exact (hlib : lib.interfaces = l.map NamedInterface.toInterface)
    (h : queryInterfaces net junk answers sockets (some ifaddrs) = .ok (l, sockets')) (v : UInt32) :
    ((∃ req, planPacket lib msg txtime = .queue req ∧ req.interface.addr = v) ↔
        ∃ addr a, msg.name = some addr ∧ firstAddress net ifaddrs addr.sllIfindex = some a ∧
          a.addr = v) ∧
      ((∃ req, planInet lib msg txtime = .queue req) ↔
        ∃ addr a, msg.name = some addr ∧ firstAddress net ifaddrs a.ifindex = some a ∧
          isSameSubnetwork a.addr addr.sAddr a.netmask) ∧
      ∀ req, planInet lib msg txtime = .queue req →
        ∃ addr a, msg.name = some addr ∧ firstAddress net ifaddrs a.ifindex = some a ∧
          isSameSubnetwork a.addr addr.sAddr a.netmask ∧ a.addr = req.interface.addr := by
  have hfind : ∀ ifindex, (ktInterfaceFind lib.interfaces ifindex).map Interface.address =
      firstAddress net ifaddrs ifindex := by
    intro ifindex
    rw [map_address_find, hlib, List.map_map]
    exact (queryInterfaces_address h).2 ifindex
  have hfound : ∀ req, planInet lib msg txtime = .queue req →
      ∃ addr a, msg.name = some addr ∧ firstAddress net ifaddrs a.ifindex = some a ∧
        isSameSubnetwork a.addr addr.sAddr a.netmask ∧ a.addr = req.interface.addr := by
    intro req hplan
    obtain ⟨addr, i, hname, hi, rfl⟩ := planInet_eq_queue.mp hplan
    have ha := map_address_getByNet lib.interfaces addr
    rw [hi, Option.map_some] at ha
    have hmem := List.mem_of_find?_eq_some ha.symm
    have hsame := List.find?_some ha.symm
    rw [hlib, mem_address_iff h] at hmem
    exact ⟨addr, i.address, hname, hmem, hsame, rfl⟩
  refine ⟨⟨?_, ?_⟩, ⟨?_, ?_⟩, hfound⟩
  · rintro ⟨req, hplan, rfl⟩
    obtain ⟨addr, i, hname, hi, rfl⟩ := planPacket_eq_queue.mp hplan
    refine ⟨addr, i.address, hname, ?_, rfl⟩
    rw [← hfind, hi, Option.map_some]
  · rintro ⟨addr, a, hname, ha, rfl⟩
    rw [← hfind] at ha
    obtain ⟨i, hi, rfl⟩ := Option.map_eq_some_iff.mp ha
    exact ⟨_, planPacket_eq_queue.mpr ⟨addr, i, hname, hi, rfl⟩, rfl⟩
  · rintro ⟨req, hplan⟩
    obtain ⟨addr, a, hname, ha, hsame, -⟩ := hfound req hplan
    exact ⟨addr, a, hname, ha, hsame⟩
  · rintro ⟨addr, a, hname, ha, hsame⟩
    have hmem := (mem_address_iff h).mpr ha
    rw [← hlib] at hmem
    have hsome : ((lib.interfaces.map Interface.address).find? fun a =>
        isSameSubnetwork a.addr addr.sAddr a.netmask).isSome :=
      List.find?_isSome.mpr ⟨a, hmem, hsame⟩
    rw [← map_address_getByNet, Option.isSome_map, Option.isSome_iff_exists] at hsome
    obtain ⟨i, hi⟩ := hsome
    exact ⟨_, planInet_eq_queue.mpr ⟨addr, i, hname, hi, rfl⟩⟩

/-- A host with a loopback interface and one other. -/
def twoInterfaces : Net where
  getnameinfo _ := true
  ifNametoindex name := if name = "lo" then 1 else 2
  hwaddr _ _ := some (Vector.replicate 6 0)

/-- The other interface has a second address, in a network of its own. -/
def threeAddresses : List Ifaddr :=
  [⟨"lo", some (afInet, 0x0100007f), some 0x000000ff⟩,
    ⟨"eth0", some (afInet, 0x0100a8c0), some 0x00ffffff⟩,
    ⟨"eth0", some (afInet, 0x0100000a), some 0x000000ff⟩]

/-- A message for the network of the first address is scheduled, one for that of the second is not,
though the host has an address there. -/
theorem destinations_exact_second : ∃ lib : Library,
    (∃ req, planInet lib (timedMessage (some ⟨0x3930, 0x0200a8c0⟩)) 5 = .queue req) ∧
      ¬ ∃ req, planInet lib (timedMessage (some ⟨0x3930, 0x0200000a⟩)) 5 = .queue req := by
  obtain ⟨l, sockets', h⟩ : ∃ l sockets', queryInterfaces twoInterfaces (Vector.replicate 6 1)
      (fun _ => ⟨4, 4, 0⟩) [] (some threeAddresses) = .ok (l, sockets') := ⟨_, _, rfl⟩
  refine ⟨⟨sockets', l.map NamedInterface.toInterface⟩, ?_, ?_⟩
  · exact (destinations_exact rfl h 0).2.1.mpr
      ⟨⟨0x3930, 0x0200a8c0⟩, ⟨2, 0x0100a8c0, 0x00ffffff⟩, rfl, by decide, by decide⟩
  · intro hqueue
    obtain ⟨addr, a, hname, ha, hsame⟩ := (destinations_exact rfl h 0).2.1.mp hqueue
    obtain rfl := Option.some.inj hname
    have hall : ∀ a ∈ threeAddresses.filterMap (inetAddress twoInterfaces),
        firstAddress twoInterfaces threeAddresses a.ifindex = some a →
          ¬ isSameSubnetwork a.addr 0x0200000a a.netmask := by
      decide
    refine hall a ?_ ha hsame
    unfold firstAddress lookupKey at ha
    exact List.mem_of_find?_eq_some ha

end KuberneTSN.Preload
