import IsoMedia.FourCc
import IsoMedia.Format

/-!
# Errors

An error is a cause with the numbers that belong to it; `Error.message` alone knows the wording.
-/

namespace IsoMedia

/-- The tables without which a track cannot be built. -/
inductive RequiredTable where
  | sampleDescription
  | timeToSample
  | sampleToChunk
  | chunkOffset
  | sampleSize
  | mediaHeader
deriving DecidableEq

def RequiredTable.label : RequiredTable → String
  | sampleDescription => "采样描述表 (stsd)"
  | timeToSample => "时间-采样表 (stts)"
  | sampleToChunk => "采样-块映射表 (stsc)"
  | chunkOffset => "块偏移表 (stco/co64)"
  | sampleSize => "采样大小表 (stsz/stz2)"
  | mediaHeader => "媒体头 (mdhd)"

/-- The two lists of parameter sets in an H.264 configuration. -/
inductive ParameterList where
  | sps
  | pps
deriving DecidableEq

def ParameterList.label : ParameterList → String
  | sps => "SPS"
  | pps => "PPS"

/-- Requests that no input could satisfy. -/
inductive ArgumentFault where
  /-- More bits asked at once than fit a word. -/
  | tooManyBits (asked : Nat)
  | nalPrefixWidth (width : Nat)
  | notAuxiliary (type : FourCc)
  | nothingOpen
deriving DecidableEq

/-- Configurations that an ADTS header cannot express. -/
inductive Inexpressible where
  | explicitRate (rate : Nat)
  | objectType (type : Nat)
deriving DecidableEq

/-- Why data is not well formed. -/
inductive DataFault where
  /-- A field of `need` bytes at `pos` with only `left` bytes to read it from. -/
  | readPastEnd (pos need left : Nat)
  | bitsPastEnd (need left : Nat)
  | skipPastEnd
  | reservedRate (index : Nat)
  | adtsFrameLength (length : Nat)
  | avcConfigShort (length : Nat)
  | parameterLengthCut (list : ParameterList) (index : Nat)
  | parameterEmpty (list : ParameterList) (index : Nat)
  | parameterCut (list : ParameterList) (index declared : Nat)
  | hevcConfigShort (length : Nat)
  | hevcArrayType (index type : Nat)
  | hevcUnitLength (length : Nat)
  | openEndedInside (type : FourCc)
  | sizeBelowHeader (type : FourCc) (size header : Nat)
  | editCount (count : Nat)
  | entryCount (table : FourCc) (count left : Nat)
  | compactFieldWidth (width : Nat)
  | compactTableShort (count need : Nat)
  | sampleWithoutSize (sample entries : Nat)
  | chunkNumberZero (run : Nat)
  | chunkOrder (run first next : Nat)
  | chunkRange (first last chunks : Nat)
  | moreSamplesThanSizes (declared : Nat)
  | fewerSamplesThanSizes (covered declared : Nat)
  | sampleOutsideInput (sample chunk pos size input : Nat)
  | streamTag (found : Nat)
  | decoderTag (found : Nat)
  | decoderInfoCut (declared : Nat)
  | unknownSampleFormat (format : FourCc)
  | noSampleEntry
  | outsideTrack (type : FourCc) (offset : Nat)
  | unknownBox (type : FourCc) (offset : Nat)
  | nestedTooDeep (type : FourCc) (offset limit : Nat)
  | payloadShort (type : FourCc)
  | noTracks
  | sampleCut (track sample pos size : Nat)
  /-- A fault found while building the track of this number. -/
  | inTrack (track : Nat) (cause : DataFault)
deriving DecidableEq

/-- Why no format could be chosen. -/
inductive FormatFault where
  | noDemuxer (format : Format)
  | unrecognised
deriving DecidableEq

/-- Everything that can go wrong. -/
inductive Error where
  | invalidArgument (fault : ArgumentFault)
  | unsupported (what : Inexpressible)
  | io (reason : String)
  /-- The data ends inside a box. -/
  | needMoreData
  /-- The end of the input, or of the samples, was reached. -/
  | endOfStream
  | invalidData (fault : DataFault)
  | incompleteTrack (track : Nat) (missing : RequiredTable)
  | formatNotFound (fault : FormatFault)
deriving DecidableEq

/-- Two upper-case hexadecimal digits. -/
def hexByte (n : Nat) : String :=
  String.ofList [(Nat.digitChar (n / 16 % 16)).toUpper, (Nat.digitChar (n % 16)).toUpper]

def ArgumentFault.message : ArgumentFault → String
  | tooManyBits n => s!"read_bits: n={n} 超过 32 位"
  | nalPrefixWidth n => s!"NAL 长度前缀大小非法: {n}"
  | notAuxiliary t => s!"'{t.text}' 不是辅助采样表"
  | nothingOpen => "MP4: 尚未打开文件"

def Inexpressible.message : Inexpressible → String
  | explicitRate r => s!"ADTS 无法表示显式采样率 {r}"
  | objectType t => s!"ADTS 无法表示 audioObjectType={t}"

def DataFault.message : DataFault → String
  | readPastEnd pos need left => s!"读取越界: 位置 {pos} 需要 {need} 字节, 仅剩 {left} 字节"
  | bitsPastEnd need left => s!"比特流不足: 需要 {need} 位, 剩余 {left} 位"
  | skipPastEnd => "比特流不足, 无法跳过"
  | reservedRate i => s!"AAC: 保留的采样率索引 {i}"
  | adtsFrameLength n => s!"AAC 帧长度超出 ADTS 限制: {n}"
  | avcConfigShort n => s!"H.264: avcC 数据太短, len={n}"
  | parameterLengthCut l i => s!"H.264: avcC {l.label} 长度字段截断, index={i}"
  | parameterEmpty l i => s!"H.264: avcC {l.label} 长度非法, index={i}, len=0"
  | parameterCut l i n => s!"H.264: avcC {l.label} 数据截断, index={i}, declared_len={n}"
  | hevcConfigShort n => s!"HEVC: hvcC 数据太短, len={n}"
  | hevcArrayType i t => s!"HEVC: hvcC 数组 {i} 含非法 NAL 类型 {t}"
  | hevcUnitLength n => s!"HEVC: NAL 长度非法: {n}"
  | openEndedInside t => s!"box '{t.text}' 大小为 0, 只允许出现在文件顶层"
  | sizeBelowHeader t s h => s!"box '{t.text}' 声明大小 {s} 小于头部长度 {h}"
  | editCount n => s!"elst: 条目数 {n} 超出 Box 大小"
  | entryCount t n left => s!"{t.text}: 条目数 {n} 超出 Box 大小 (剩余 {left} 字节)"
  | compactFieldWidth w => s!"stz2: 非法字段宽度 {w}"
  | compactTableShort n need => s!"stz2: {n} 个采样需要 {need} 字节, 数据不足"
  | sampleWithoutSize k n => s!"采样 #{k} 超出采样大小表范围 ({n} 项)"
  | chunkNumberZero i => s!"stsc 第 {i} 项的起始块号为 0"
  | chunkOrder i a b => s!"stsc 起始块号未递增: 第 {i} 项 {a} → 第 {i + 1} 项 {b}"
  | chunkRange a b n => s!"stsc 引用的块 {a}..={b} 超出块偏移表范围 ({n} 块)"
  | moreSamplesThanSizes n => s!"stsc 描述的采样数超过采样大小表中的 {n} 个"
  | fewerSamplesThanSizes k n => s!"stsc/stco 只覆盖了 {k} 个采样, 采样大小表声明了 {n} 个"
  | sampleOutsideInput k c pos size len =>
    s!"采样 #{k} (块 {c}, 偏移 {pos}, {size} 字节) 超出输入 ({len} 字节)"
  | streamTag t => s!"esds: 期望 ES_Descriptor (0x03), 实际 tag=0x{hexByte t}"
  | decoderTag t => s!"esds: 期望 DecoderConfigDescriptor (0x04), 实际 tag=0x{hexByte t}"
  | decoderInfoCut n => s!"esds: DecoderSpecificInfo 声明 {n} 字节, 超出剩余数据"
  | unknownSampleFormat f => s!"stsd: 无法识别的采样格式 '{f.text}'"
  | noSampleEntry => "stsd 中没有采样描述条目"
  | outsideTrack t o => s!"'{t.text}' (偏移 {o}) 出现在 trak 之外"
  | unknownBox t o => s!"未知 box '{t.text}' (偏移 {o})"
  | nestedTooDeep t o n => s!"box '{t.text}' (偏移 {o}) 嵌套超过 {n} 层"
  | payloadShort t => s!"box '{t.text}' 负载过短"
  | noTracks => "MP4 文件中未找到任何轨道"
  | sampleCut i k pos size => s!"轨道 #{i} 采样 #{k} (偏移 {pos}, {size} 字节) 超出文件末尾"
  | inTrack i cause => s!"轨道 #{i}: {cause.message}"

def FormatFault.message : FormatFault → String
  | noDemuxer f => s!"未找到 {f.name} 的解封装器"
  | unrecognised => "无法识别输入文件格式"

def Error.message : Error → String
  | invalidArgument f => s!"无效参数: {f.message}"
  | unsupported w => s!"不支持的操作: {w.message}"
  | io reason => s!"I/O 错误: {reason}"
  | needMoreData => "数据不足, 需要更多输入"
  | endOfStream => "已到达流末尾"
  | invalidData f => s!"无效数据: {f.message}"
  | incompleteTrack i t => s!"轨道不完整: 轨道 #{i} 缺少{t.label}"
  | formatNotFound f => s!"未找到容器格式: {f.message}"

/-- Data is malformed for the given reason. -/
abbrev malformed {α : Type} (fault : DataFault) : Except Error α := .error (.invalidData fault)

end IsoMedia
