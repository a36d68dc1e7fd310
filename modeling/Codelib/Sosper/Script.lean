import Codelib.Core.Abrupt
import Codelib.Core.Lines
import Codelib.Core.Tally

/-!
# Codelib.Sosper.Script

`perl/sosper.pl`: reading the attendees, the filters and the five counting loops.

* A string is the bytes Perl sees, since the file is read without a layer. An undefined
  value is the empty string as text and zero as a number.
* `next` in `apply_filter` leaves the subroutine for the next round of the loop that
  called it, and keeps what the filter has counted: programs are `Abrupt` with `Next`.
* A filter returns the value of the last expression it evaluates, and `$n++` is the
  value `$n` had before.
* `$cnum` is always below the number of columns, so it is a `Fin 10`.
-/

namespace Codelib.Sosper

/-- One attendee: a hash of fields by column name. -/
abbrev Entry := AList fun _ : String => Text

/-- `$income->{$name}` as text. -/
def Entry.field (income : Entry) (name : String) : Text := (income.lookup name).getD []

/-! ### `read_data` -/

/-- `%colums` -/
def colums (n : Fin 10) : String :=
  ["id", "name", "company", "regdate", "country", "regtype", "events", "workshop", "charge",
    "lastname"].get n

/-- `<DATA>` in a loop: the lines with their line ends. -/
def readLines (file : Text) : List Text := splitLines file

/-- `s/(\r?\n?)$//g` -/
def stripNewline (line : Text) : Text := stripLast 13 (stripLast 10 line)

/-- `split("\t", $_, -1)`, which has no fields for an empty string. -/
def split (line : Text) : List Text := if line = [] then [] else line.splitOn 9

/-- The variables `read_data` writes. -/
structure Reader where
  cnum : Fin 10
  attendeeList : List Entry

def Reader.init : Reader := ⟨0, []⟩

/-- `get_column_name`, which returns a name and the next `$cnum`. -/
def getColumnName (cnum : Fin 10) : String × Fin 10 :=
  (colums cnum, ⟨(cnum + 1) % 10, Nat.mod_lt _ (by decide)⟩)

/-- `my %hash = map { get_column_name() => $_ } @values`: later pairs replace earlier ones. -/
def toHash (cnum : Fin 10) (hash : Entry) : List Text → Entry × Fin 10
  | [] => (hash, cnum)
  | value :: values =>
    let (name, cnum) := getColumnName cnum
    toHash cnum (hash.insert name value) values

/-- The body of `while (<DATA>)`. -/
def Reader.line (s : Reader) (line : Text) : Reader :=
  let values := split (stripNewline line)
  let (hash, cnum) := toHash s.cnum ∅ values
  ⟨cnum, s.attendeeList ++ [hash]⟩

def readData (file : Text) : Reader := (readLines file).foldl Reader.line .init

/-! ### The counters -/

structure Counters where
  totalCnt : Nat
  sospCnt : Nat
  wstotalCnt : Nat
  workshopCnt : Tally Text
  regtypeCnt : Tally Text
  regtypeStudent : Nat
  regtypeNonstudent : Nat
  geoCnt : Tally Text
  continentCnt : Tally String
  studentAcademics : Nat
  nonstudentAcademics : Nat
  industry : Nat
  other : Nat

def Counters.zero : Counters := ⟨0, 0, 0, ∅, ∅, 0, 0, ∅, ∅, 0, 0, 0, 0⟩

/-- A jump to the next round of the calling loop. -/
inductive Next
  | next
  deriving Repr, DecidableEq

abbrev M := Abrupt Next Counters

/-- `%country_hash`: the countries of a continent, as `prepare_country` found them. -/
abbrev CountryHash := String → List Text

/-- `%company_list` -/
def companyList : List (String × Nat) :=
  [("AT&T Research Labs", 0), ("CNRS - IRIT - ENSEEIHT", 0), ("Confreaks", 0),
   ("Ecole Polytechnique de Montreal", 0), ("FAU Erlangen-Nuremberg", 0), ("FCT/UNL", 0),
   ("Fermilab", 0), ("Fujitsu Laboratories Ltd.", 0), ("HGST Research", 0), ("HP Labs", 0),
   ("HP Labs - Palo Alto", 0), ("IBM Research", 0), ("IBM Research - Zurich", 0),
   ("IBM T. J. Watson Research Center", 0), ("Indian institute of Science", 0), ("INESC-ID", 0),
   ("INRIA / UPMC-LIP6", 0), ("INRIA LIP6", 0), ("INRIA-LIP6", 0),
   ("Institute of Computing Technology, CAS", 0),
   ("Institute of Software, Chinese Academy of Sciences", 0), ("Intel Labs", 0),
   ("Kaspersky Lab", 0), ("LIP6/INRIA", 0), ("Max Planck Institute for Software Systems", 0),
   ("Microsoft Research", 0), ("Microsoft Research - Silicon Valley", 0),
   ("Microsoft Research (SVC)", 0), ("Microsoft Research Asia", 0),
   ("Microsoft Research Cambridge", 0), ("Microsoft Research Silicon Valley", 0), ("MPI-SWS", 0),
   ("NEC Laboratories America", 0), ("NEC Labs", 0), ("NEC Labs America", 0),
   ("NICTA and UNSW", 0), ("Oak Ridge National Lab (ORNL)", 0), ("Oracle Labs", 0),
   ("Qatar Computing Research Institute", 0),
   ("Shenzhen Institute of Information Technology", 0), ("Symantec Research Labs", 0),
   ("Systems Group / ETH Zurich", 0), ("Systems Group, ETH Zurich", 0), ("Technion", 0),
   ("Technion (EE)", 0), ("Yahoo Research", 0), ("Amherst College", 1),
   ("Beihang University", 1), ("Boston University", 1), ("Brandeis University", 1), ("BU", 1),
   ("Carnegie Mellon University", 1), ("CITI - New University of Lisbon", 1),
   ("City University London", 1), ("Clarkson University", 1), ("Columbia University", 1),
   ("Cornell", 1), ("Cornell University", 1), ("Denison University", 1),
   ("Dickinson College", 1), ("Duke University", 1), ("EPFL", 1), ("ETH Zurich", 1),
   ("ETH Zürich", 1), ("Georgia Institute of Technology", 1), ("Georgia Tech", 1),
   ("Hanyang University", 1), ("Hanyang Univrsity", 1), ("Harvard University", 1),
   ("Harvey Mudd College", 1), ("Hongik University", 1),
   ("Indian Institute of Technology Delhi (IIT Delhi)", 1), ("Johns Hopkins University", 1),
   ("Keio Univ.", 1), ("Keio University", 1), ("McGill University", 1), ("MIT", 1),
   ("MIT CSAIL", 1), ("New University of Lisbon", 1), ("New York University", 1), ("NICTA", 1),
   ("North Carolina State University", 1), ("Northeastern University", 1), ("NYU", 1),
   ("NYU and UT Austin", 1), ("Peking University", 1), ("Politecnico di Milano", 1),
   ("Princeton University", 1), ("Purdue University", 1), ("Reykjavik University", 1),
   ("Rice University", 1), ("Royal Holloway, University of London", 1),
   ("Rutgers University", 1), ("Shanghai Jiao Tong University", 1),
   ("Shanghai JiaoTong University", 1), ("Singapore Management University", 1), ("Stanford", 1),
   ("Stanford University", 1), ("Stony Brook", 1), ("Stony Brook University", 1),
   ("SUNY Buffalo", 1), ("SUNY Stony Brook", 1), ("Technische Universität Dresden", 1),
   ("The College of William and Mary", 1), ("The Ohio State University", 1),
   ("The University of Texas at Austin", 1), ("The University of Tokyo", 1),
   ("Tsinghua University", 1), ("TU Braunschweig", 1), ("TU Dortmund", 1), ("TU Dresden", 1),
   ("TUAT", 1), ("Tufts University", 1), ("U. Nova de Lisboa", 1), ("UBC Computer Science", 1),
   ("UC Berkeley", 1), ("UC Riverside", 1), ("UC San Diego", 1), ("UCSD", 1),
   ("Univ. of Tromsø", 1), ("University College London (UCL)", 1), ("University of Arizona", 1),
   ("University of British Columbia", 1), ("University of British Columbia, Vancouver", 1),
   ("University of California San Diego", 1), ("University of California, Riverside", 1),
   ("University of California, San Diego", 1), ("University of Cambridge", 1),
   ("University of Central Florida", 1), ("University of Chicago", 1),
   ("University of Hyogo", 1), ("University of Illinois at Chicago", 1),
   ("University of Illinois at Urbana Champaign", 1),
   ("University of Illinois at Urbana-Champaign", 1), ("University of Mannheim", 1),
   ("University of Massachusetts, Amherst", 1), ("University of Michigan", 1),
   ("University of Nice Sophia-Antipolis", 1), ("University of Pennsylvania", 1),
   ("University of Seoul", 1), ("University of Southern California", 1),
   ("University of Stavanger", 1), ("University of Texas at Austin", 1),
   ("University of Toronto", 1), ("University of Tromsø", 1), ("University of Tsukuba", 1),
   ("University of Utah", 1), ("University of Washington", 1), ("University of Waterloo", 1),
   ("University of Wisconsin, Madison", 1), ("University of Wisconsin-Madison", 1),
   ("Univesity of Tokyo", 1), ("UPCM/LIP6", 1), ("USP", 1), ("UT Austin", 1),
   ("UT Austin/Google", 1), ("Virginia Tech", 1), ("VU University", 1),
   ("VU University Amsterdam", 1), ("Wheaton College (IL)", 1), ("Xi'an Jiaotong University", 1),
   ("Yale", 1), ("Yale University", 1), ("Akamai Technologies", 2), ("Amazon EC2", 2),
   ("Amazon Web Services", 2), ("Apple", 2), ("Apple Inc", 2), ("Apple Inc.", 2),
   ("Apple, Inc.", 2), ("Apportable", 2), ("BAE Systems", 2), ("Baidu", 2), ("baidu, inc", 2),
   ("BAIDU,INC.", 2), ("Boeing", 2), ("Bromium UK Ltd", 2), ("Cisco", 2), ("Cisco Systems", 2),
   ("Data Storage Institute, A*STAR", 2), ("EMC", 2), ("EMC Backup Recovery Systems", 2),
   ("Facebook", 2), ("Facebook Inc", 2), ("Facebook Inc.", 2), ("Facebook, Inc", 2),
   ("Galois, Inc", 2), ("Google", 2), ("Google Inc.", 2), ("Google, Inc.", 2),
   ("Hitachi, Ltd.", 2), ("HP Vertica", 2), ("HP/Vertica", 2), ("Huawei Inc", 2),
   ("HUAWEI TECHNOLOGIES CO., LTD", 2), ("Huawei technologies co., ltd.", 2),
   ("IMDEA Networks", 2), ("Intel Corp", 2), ("Intel Corporation", 2), ("Microsoft", 2),
   ("Microsoft (CISL)", 2), ("Microsoft Corporation", 2),
   ("Nessos Information Technologies SA", 2), ("NetApp", 2), ("NetApp Inc.", 2),
   ("NetApp, Inc.", 2), ("Nutanix Inc", 2), ("Parallels", 2), ("POSTECH", 2), ("Riverbed", 2),
   ("Salesforce.com", 2), ("Samsung Electronics", 2), ("Samsung Electronics co., Ltd.", 2),
   ("Sony Corporation", 2), ("Twitter", 2), ("Twitter Inc", 2), ("Twitter, Inc.", 2),
   ("Vertica", 2), ("VMware", 2), ("VMware, Inc", 2), ("VMware, Inc.", 2),
   ("National Science Foundation", 3), ("New Mexico Consortium", 3), ("NSA", 3), ("NSF", 3),
   ("Xu", 3), ("Yandex", 3)]

/-- `$company_list{$company}` as a number. -/
def companyNumber (company : Text) : Nat :=
  ((companyList.find? fun p => text p.1 = company).map Prod.snd).getD 0

/-! ### The filters -/

/-- `lc` of a byte. -/
def lc (c : UInt8) : UInt8 := if 65 ≤ c ∧ c ≤ 90 then c + 32 else c

/-- `$s =~ m/word/i` -/
def matchesWord (s : Text) (word : String) : Bool :=
  (s.map lc).tails.any fun t => ((text word).map lc).isPrefixOf t

/-- `apply_filter`: a filter that returns 0 skips the entry. -/
def applyFilter (func : Entry → M Nat) (arg : Entry) : M PUnit := do
  let result ← func arg
  if result = 0 then
    throw .next

def filterSOSP (income : Entry) : M Nat := do
  let sosp := income.field "events"
  -- test if the events contains SOSP
  if matchesWord sosp "SOSP" ∨ sosp = [] then
    return 1
  else
    return 0

def filterWorkshop (income : Entry) : M Nat := do
  let workshop := income.field "workshop"
  if ["Diversity", "HotDep", "HotPower", "INFLOW", "LADIS", "PLOS", "TRIOS"].any
      (matchesWord workshop) then
    modify fun c => { c with workshopCnt := c.workshopCnt.increment workshop }
    return 1
  else
    return 0

def filterRegtype (income : Entry) : M Nat := do
  let regtype := income.field "regtype"
  if matchesWord regtype "student" then
    modify fun c => { c with regtypeStudent := c.regtypeStudent + 1 }
  else
    modify fun c => { c with regtypeNonstudent := c.regtypeNonstudent + 1 }
  let old := (← get).regtypeCnt.count regtype
  modify fun c => { c with regtypeCnt := c.regtypeCnt.increment regtype }
  return old

/-- `$continent_cnt{$name}++` -/
def countContinent (name : String) : M Nat := do
  let old := (← get).continentCnt.count name
  modify fun c => { c with continentCnt := c.continentCnt.increment name }
  return old

def filterGeo (countryHash : CountryHash) (income : Entry) : M Nat := do
  let country := income.field "country"
  modify fun c => { c with geoCnt := c.geoCnt.increment country }
  if country ∈ countryHash "Asia" then
    countContinent "Asia"
  else if country ∈ countryHash "Europe" then
    countContinent "Europe"
  else if country ∈ countryHash "North America" then
    countContinent "North America"
  else
    countContinent "Other"

def filterCompany (income : Entry) : M Nat := do
  let regtype := income.field "regtype"
  let company := income.field "company"
  let c ← get
  if matchesWord regtype "student" then
    set { c with studentAcademics := c.studentAcademics + 1 }
    return c.studentAcademics
  else if companyNumber company = 1 ∨ companyNumber company = 0 then
    set { c with nonstudentAcademics := c.nonstudentAcademics + 1 }
    return c.nonstudentAcademics
  else if companyNumber company = 2 then
    set { c with industry := c.industry + 1 }
    return c.industry
  else
    set { c with other := c.other + 1 }
    return c.other

/-! ### The counting loops -/

def sospLoop (entry : Entry) : M PUnit := do
  modify fun c => { c with totalCnt := c.totalCnt + 1 }
  applyFilter filterSOSP entry
  modify fun c => { c with sospCnt := c.sospCnt + 1 }

def workshopLoop (entry : Entry) : M PUnit := do
  applyFilter filterWorkshop entry
  modify fun c => { c with wstotalCnt := c.wstotalCnt + 1 }

def regtypeLoop (entry : Entry) : M PUnit := do
  applyFilter filterSOSP entry
  applyFilter filterRegtype entry

def geoLoop (countryHash : CountryHash) (entry : Entry) : M PUnit := do
  applyFilter filterSOSP entry
  applyFilter (filterGeo countryHash) entry

def companyLoop (entry : Entry) : M PUnit := do
  applyFilter filterSOSP entry
  applyFilter filterCompany entry

/-- The five loops over `@attendee_list`, one after the other. -/
def breakdown (countryHash : CountryHash) (attendeeList : List Entry) : Counters :=
  let c := Abrupt.rounds sospLoop attendeeList .zero
  let c := Abrupt.rounds workshopLoop attendeeList c
  let c := Abrupt.rounds regtypeLoop attendeeList c
  let c := Abrupt.rounds (geoLoop countryHash) attendeeList c
  Abrupt.rounds companyLoop attendeeList c

end Codelib.Sosper
