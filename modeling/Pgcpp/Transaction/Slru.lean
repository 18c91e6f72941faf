import Mathlib.Data.List.Dedup
import Pgcpp.Lib.ByteMem

/-!
# Simple LRU page caches

A cache of pages over a directory with a file for each page.  The model keeps
the pages that are cached, the list by which pages are chosen for eviction, and
the files.
-/

namespace Pgcpp.Transaction

open Lib List Function

def kSlruPageSize : Nat := 8192

inductive SlruPageStatus where
  | empty
  | valid
  | dirty
  deriving DecidableEq

structure SlruPage where
  pageno : Int
  status : SlruPageStatus
  data : ByteMem

/-- `SlruCtl` and the files of its directory, which `persistent` says it has. -/
structure SlruCtl where
  capacity : Nat
  persistent : Bool
  pages : List SlruPage
  lruOrder : List Int
  disk : Int → Option ByteMem

def zeroPage : ByteMem := fun _ => 0

/-- `SimpleLruInit`, over the files that are there. -/
def simpleLruInit (capacity : Nat) (persistent : Bool) (disk : Int → Option ByteMem) : SlruCtl :=
  { capacity := capacity, persistent := persistent, pages := [], lruOrder := [], disk := disk }

def findPage (pages : List SlruPage) (pageno : Int) : Option SlruPage :=
  pages.find? fun page => page.pageno = pageno

def erasePage (pages : List SlruPage) (pageno : Int) : List SlruPage :=
  pages.filter fun page => page.pageno ≠ pageno

/-- Writes to the cached page of that number. -/
def setPage (pages : List SlruPage) (page : SlruPage) : List SlruPage :=
  pages.map fun other => if other.pageno = page.pageno then page else other

namespace SlruCtl

variable (ctl : SlruCtl)

def touchPage (pageno : Int) : SlruCtl :=
  { ctl with lruOrder := ctl.lruOrder.erase pageno ++ [pageno] }

def writePageToDisk (page : SlruPage) : SlruCtl :=
  { ctl with disk := update ctl.disk page.pageno (some page.data) }

/-- The data of a page that was not cached. -/
def readPageFromDisk (pageno : Int) : ByteMem := (ctl.disk pageno).getD zeroPage

def evictOnePage : SlruCtl :=
  match ctl.lruOrder with
  | [] => ctl
  | victim :: rest =>
    let ctl := { ctl with lruOrder := rest }
    match findPage ctl.pages victim with
    | none => ctl
    | some page =>
      let ctl :=
        if page.status = .dirty ∧ ctl.persistent = true then ctl.writePageToDisk page else ctl
      { ctl with pages := erasePage ctl.pages victim }

/-- `LoadPage`: the cache afterwards and the page, which is in it. -/
def loadPage (pageno : Int) : SlruCtl × SlruPage :=
  match findPage ctl.pages pageno with
  | some page => (ctl.touchPage pageno, page)
  | none =>
    let ctl :=
      if ctl.capacity ≤ ctl.pages.length then ctl.evictOnePage else ctl
    let page : SlruPage :=
      { pageno := pageno, status := .valid
        data :=
          if ctl.persistent then ctl.readPageFromDisk pageno else zeroPage }
    ({ ctl with
        pages := ctl.pages ++ [page], lruOrder := ctl.lruOrder ++ [pageno] }, page)

/-- `SimpleLruRead`, with the bytes that are copied out. -/
def simpleLruRead (pageno : Int) (offset len : Nat) : SlruCtl × List UInt8 :=
  let (ctl, page) := ctl.loadPage pageno
  (ctl, page.data.slice offset len)

def simpleLruWrite (pageno : Int) (offset : Nat) (src : List UInt8) : SlruCtl :=
  let (ctl, page) := ctl.loadPage pageno
  { ctl with
    pages := setPage ctl.pages { page with data := page.data.store offset src, status := .dirty } }

/-- One page of the loop of `SimpleLruFlush`. -/
def flushedFile (disk : Int → Option ByteMem) (page : SlruPage) : Int → Option ByteMem :=
  if page.status = .dirty then update disk page.pageno (some page.data) else disk

def simpleLruFlush : SlruCtl :=
  if ctl.persistent then
    { ctl with
      disk := ctl.pages.foldl flushedFile ctl.disk, pages := ctl.pages.map fun page =>
        if page.status = .dirty then { page with status := .valid } else page }
  else
    { ctl with
      pages := ctl.pages.map fun page => { page with status := .valid } }

/-- The bytes of every page, cached or not. -/
def contents (pageno : Int) : ByteMem :=
  match findPage ctl.pages pageno with
  | some page => page.data
  | none => ctl.readPageFromDisk pageno

/-- The invariant of a cache with a directory. -/
structure Consistent : Prop where
  persistent : ctl.persistent
  positive : 1 ≤ ctl.capacity
  keys : (ctl.pages.map SlruPage.pageno).Nodup
  order : ctl.lruOrder.Perm (ctl.pages.map SlruPage.pageno)
  size : ctl.pages.length ≤ ctl.capacity
  clean : ∀ page ∈ ctl.pages, page.status ≠ .dirty → ctl.readPageFromDisk page.pageno = page.data

end SlruCtl

section

variable {pages : List SlruPage}

theorem pageno_of_findPage (found : findPage pages pageno = some page) : page.pageno = pageno := by
  simpa using find?_some found

theorem mem_of_findPage (found : findPage pages pageno = some page) : page ∈ pages :=
  mem_of_find?_eq_some found

theorem findPage_eq_none_iff :
    findPage pages pageno = none ↔ pageno ∉ pages.map SlruPage.pageno := by
  rw [findPage, find?_eq_none, mem_map]
  constructor
  · rintro absent ⟨page, mem, same⟩
    exact absent page mem (decide_eq_true same)
  · intro absent page mem same
    exact absent ⟨page, mem, of_decide_eq_true same⟩

theorem findPage_of_mem (keys : (pages.map SlruPage.pageno).Nodup)
    (mem : page ∈ pages) : findPage pages page.pageno = some page := by
  cases found : findPage pages page.pageno with
  | none => exact absurd (mem_map_of_mem mem) (findPage_eq_none_iff.1 found)
  | some _ =>
    have same := inj_on_of_nodup_map keys (mem_of_findPage found) mem (pageno_of_findPage found)
    rw [same]

theorem findPage_append_self (absent : findPage pages page.pageno = none) :
    findPage (pages ++ [page]) page.pageno = some page := by
  rw [findPage] at absent ⊢
  rw [find?_append, absent]
  simp

theorem findPage_append_other (ne : pageno ≠ page.pageno) :
    findPage (pages ++ [page]) pageno = findPage pages pageno := by
  rw [findPage, findPage]
  simp [ne.symm]

theorem findPage_erase_self : findPage (erasePage pages pageno) pageno = none := by
  rw [findPage_eq_none_iff, mem_map]
  rintro ⟨_, mem, same⟩
  exact of_decide_eq_true (mem_filter.1 mem).2 same

theorem findPage_erase_other (ne : pageno ≠ erased) :
    findPage (erasePage pages erased) pageno = findPage pages pageno := by
  rw [findPage, erasePage, find?_filter]
  congr 1
  funext page
  by_cases same : page.pageno = pageno
  · simp [same, ne]
  · simp [same]

theorem findPage_map (keeps : ∀ page, (change page).pageno = page.pageno) :
    findPage (pages.map change) pageno = (findPage pages pageno).map change := by
  rw [findPage, find?_map]
  congr 2
  funext page
  rw [comp, keeps]

theorem map_pageno_map (keeps : ∀ page, (change page).pageno = page.pageno) :
    (pages.map change).map SlruPage.pageno = pages.map SlruPage.pageno := by
  rw [map_map]
  apply map_congr_left
  intro page _
  exact keeps page

end

end Pgcpp.Transaction
