import Codelib.Core.ByteOrder
import Codelib.Ibtest.SockSync

/-!
# Codelib.Ibtest.Wire

The connection data of `c/ibtest/ibv-rc.c` on its way from one host to the other, and **what the
peer computes from it** (`remoteProps_eq`).

* A host has a byte order. Its memory holds a `cm_con_data_t` without padding.
* `htonl` and its siblings are the C library's; `htonll` and `ntohll` come from
  `infiniband/mad.h`. A `Network` is any that do what is documented.

In the memory of any host, converted data look the way the data look on a big-endian host
(`toMemory_localConData`).
-/

namespace Codelib.Ibtest

/-- `struct cm_con_data_t` -/
structure CmConData where
  addr : UInt64
  rkey : UInt32
  qpNum : UInt32
  lid : UInt16
  gid : Vector UInt8 16
  deriving Repr, DecidableEq

namespace CmConData

/-- The bytes of a packed structure. -/
def toMemory (o : ByteOrder) (d : CmConData) : Text :=
  o.store 8 d.addr.toNat ++ o.store 4 d.rkey.toNat ++ o.store 4 d.qpNum.toNat ++
    o.store 2 d.lid.toNat ++ d.gid.toList

/-- The structure at the address of `bytes`. -/
def ofMemory (o : ByteOrder) (bytes : Text) : CmConData where
  addr := .ofNat (o.load ((bytes.drop 0).take 8))
  rkey := .ofNat (o.load ((bytes.drop 8).take 4))
  qpNum := .ofNat (o.load ((bytes.drop 12).take 4))
  lid := .ofNat (o.load ((bytes.drop 16).take 2))
  gid := .ofFn fun i => (bytes.drop 18).getD i 0

theorem length_toMemory (o : ByteOrder) (d : CmConData) :
    (d.toMemory o).length = sizeofCmConData := by
  simp [toMemory, sizeofCmConData]

/-- What is in memory is read as it was written. -/
theorem ofMemory_toMemory (o : ByteOrder) (d : CmConData) : ofMemory o (d.toMemory o) = d := by
  obtain ⟨addr, rkey, qpNum, lid, gid⟩ := d
  simp [ofMemory, toMemory, ByteOrder.drop_store, ByteOrder.load_store_mod]

end CmConData

/-! ### The conversions -/

/-- The conversions of a host: to big-endian, and back. -/
structure Network (o : ByteOrder) where
  htonll : UInt64 → UInt64
  ntohll : UInt64 → UInt64
  htonl : UInt32 → UInt32
  ntohl : UInt32 → UInt32
  htons : UInt16 → UInt16
  ntohs : UInt16 → UInt16
  store_htonll x : o.store 8 (htonll x).toNat = ByteOrder.big.store 8 x.toNat
  ntohll_htonll x : ntohll (htonll x) = x
  store_htonl x : o.store 4 (htonl x).toNat = ByteOrder.big.store 4 x.toNat
  ntohl_htonl x : ntohl (htonl x) = x
  store_htons x : o.store 2 (htons x).toNat = ByteOrder.big.store 2 x.toNat
  ntohs_htons x : ntohs (htons x) = x

open ByteOrder in
/-- Load what a big-endian host would store, and the other way around. -/
def Network.std (o : ByteOrder) : Network o where
  htonll x := .ofNat (reload .big o 8 x.toNat)
  ntohll x := .ofNat (reload o .big 8 x.toNat)
  htonl x := .ofNat (reload .big o 4 x.toNat)
  ntohl x := .ofNat (reload o .big 4 x.toNat)
  htons x := .ofNat (reload .big o 2 x.toNat)
  ntohs x := .ofNat (reload o .big 2 x.toNat)
  store_htonll x := by
    rw [UInt64.toNat_ofNat_of_lt' (reload_lt .big o 8 _), store_reload]
  ntohll_htonll x := by
    rw [UInt64.toNat_ofNat_of_lt' (reload_lt .big o 8 _), reload_reload _ _ x.toNat_lt,
      UInt64.ofNat_toNat]
  store_htonl x := by
    rw [UInt32.toNat_ofNat_of_lt' (reload_lt .big o 4 _), store_reload]
  ntohl_htonl x := by
    rw [UInt32.toNat_ofNat_of_lt' (reload_lt .big o 4 _), reload_reload _ _ x.toNat_lt,
      UInt32.ofNat_toNat]
  store_htons x := by
    rw [UInt16.toNat_ofNat_of_lt' (reload_lt .big o 2 _), store_reload]
  ntohs_htons x := by
    rw [UInt16.toNat_ofNat_of_lt' (reload_lt .big o 2 _), reload_reload _ _ x.toNat_lt,
      UInt16.ofNat_toNat]

/-! ### `connect_qp` -/

section ConnectQp

variable {o : ByteOrder} (net : Network o)

/-- `local_con_data`, where `props` are the values of this side. -/
def localConData (props : CmConData) : CmConData where
  addr := net.htonll props.addr
  rkey := net.htonl props.rkey
  qpNum := net.htonl props.qpNum
  lid := net.htons props.lid
  gid := props.gid

/-- `remote_con_data`, which is stored to `remote_props`. -/
def remoteConData (tmpConData : CmConData) : CmConData where
  addr := net.ntohll tmpConData.addr
  rkey := net.ntohl tmpConData.rkey
  qpNum := net.ntohl tmpConData.qpNum
  lid := net.ntohs tmpConData.lid
  gid := tmpConData.gid

/-- The bytes that are sent. -/
def sentBytes (props : CmConData) : Text := (localConData net props).toMemory o

/-- What is computed from the bytes that are received. -/
def remoteProps (received : Text) : CmConData := remoteConData net (.ofMemory o received)

theorem toMemory_localConData (props : CmConData) : sentBytes net props = props.toMemory .big := by
  simp only [sentBytes, CmConData.toMemory, localConData, net.store_htonll, net.store_htonl,
    net.store_htons]

theorem remoteConData_localConData (props : CmConData) :
    remoteConData net (localConData net props) = props := by
  simp only [remoteConData, localConData, net.ntohll_htonll, net.ntohl_htonl, net.ntohs_htons]

end ConnectQp

/-- **The peer computes the values of this side**, and the bytes between the two hosts depend on
the values alone. -/
theorem remoteProps_eq {o o' : ByteOrder} (net : Network o) (peer : Network o') (props : CmConData) :
    remoteProps peer (sentBytes net props) = props ∧
      sentBytes net props = sentBytes peer props ∧
      (sentBytes net props).length = sizeofCmConData := by
  have hsame : sentBytes net props = sentBytes peer props := by
    rw [toMemory_localConData, toMemory_localConData]
  refine ⟨?_, hsame, CmConData.length_toMemory o _⟩
  rw [hsame, remoteProps, sentBytes, CmConData.ofMemory_toMemory, remoteConData_localConData]

end Codelib.Ibtest
